/-
  Output: what standard output is given, looked at through its buffer.

  A byte may be held for a while before it reaches the device, and when it does so depends on line
  feeds, on the room that is left and on flushes.  None of this can be seen in `Stdout.bytes`, which
  counts what is held with what is delivered: on a device that works, every write adds its byte at
  the end and nothing else moves a byte (`Stdout.Gains`).

  Text is written byte by byte, so to print two texts is to print them as one (`print_append`), on
  a full device too.
-/
import Brainfuck.Console

namespace Brainfuck

/-! ## Texts as bytes -/

/-- Reading an array of bytes from some position on. -/
theorem toList_loop_eq (bytes : ByteArray) (i : Nat) (read : List UInt8) :
    ByteArray.toList.loop bytes i read = read.reverse ++ bytes.data.toList.drop i := by
  induction i, read using ByteArray.toList.loop.induct bytes with
  | case1 i read hlt ih =>
    have hi : i < bytes.data.toList.length := hlt
    have hget : bytes.get! i = bytes.data.toList[i] := getElem!_pos bytes.data i hlt
    rw [ByteArray.toList.loop, if_pos hlt, ih, List.drop_eq_getElem_cons hi, hget]
    simp
  | case2 i read hge =>
    have hi : bytes.data.toList.length ≤ i := Nat.le_of_not_lt hge
    rw [ByteArray.toList.loop, if_neg hge, List.drop_eq_nil_of_le hi]
    simp

theorem Utf8.encode_eq (text : String) : encode text = text.toByteArray.data.toList := by
  rw [encode, ByteArray.toList, toList_loop_eq]
  rfl

theorem Utf8.encode_append (a b : String) : encode (a ++ b) = encode a ++ encode b := by
  rw [encode_eq, encode_eq, encode_eq, String.toByteArray_append, ByteArray.data_append,
    Array.toList_append]

namespace Stdout

/-- Two texts are printed as one. -/
theorem print_append (o : Stdout) (a b : String) : o.print (a ++ b) = (o.print a).print b := by
  have happend : (a ++ b).toUTF8.toList = a.toUTF8.toList ++ b.toUTF8.toList :=
    Utf8.encode_append a b
  rw [print, happend, List.foldl_append]
  rfl

/-! ## A device that works -/

/-- `o` has been given these bytes, and the device works. -/
structure Gains (o : Stdout) (bytes : List UInt8) (o' : Stdout) : Prop where
  full : o'.full = false
  bytes_eq : o'.bytes.toList = o.bytes.toList ++ bytes

variable {o o' o'' : Stdout} {more : List UInt8}

theorem bytes_of_working (h : o.full = false) : o.bytes = o.delivered ++ o.held := by
  rw [bytes, h]
  rfl

theorem Gains.append {bytes : List UInt8} (h : o.Gains bytes o') (h' : o'.Gains more o'') :
    o.Gains (bytes ++ more) o'' := by
  refine ⟨h'.full, ?_⟩
  rw [h'.bytes_eq, h.bytes_eq, List.append_assoc]

/-- A transfer adds nothing. -/
theorem flush_of_working (h : o.full = false) : ∃ o', o.flush = (.ok (), o') ∧ o.Gains [] o' := by
  by_cases hheld : o.held.isEmpty = true
  · refine ⟨o, ?_, h, (List.append_nil _).symm⟩
    rw [flush, if_pos hheld]
  · refine ⟨{ o with delivered := o.delivered ++ o.held, held := #[] }, ?_, h, ?_⟩
    · rw [flush, if_neg hheld, h]
      rfl
    · have hbytes : Stdout.bytes { o with delivered := o.delivered ++ o.held, held := #[] } = _ :=
        bytes_of_working h
      rw [hbytes, bytes_of_working h, Array.append_empty, List.append_nil]

theorem hold_of_working (h : o.full = false) (byte : UInt8) :
    ∃ o', o.hold byte = (.ok (), o') ∧ o.Gains [byte] o' := by
  have hheld : o.Gains [byte] { o with held := o.held.push byte } := by
    have hbytes : Stdout.bytes { o with held := o.held.push byte } = _ := bytes_of_working h
    refine ⟨h, ?_⟩
    rw [hbytes, bytes_of_working h]
    simp
  rw [hold]
  split
  · obtain ⟨o', hflush, hgains⟩ := flush_of_working hheld.full
    exact ⟨o', hflush, hheld.append hgains⟩
  · exact ⟨_, rfl, hheld⟩

/-- **A byte that is written is the last one**, whether room has to be made for it or not. -/
theorem write_of_working (h : o.full = false) (byte : UInt8) :
    ∃ o', o.write byte = (.ok (), o') ∧ o.Gains [byte] o' := by
  rw [write]
  split
  · obtain ⟨o', hflush, hroom⟩ := flush_of_working h
    obtain ⟨o'', hhold, hgains⟩ := hold_of_working hroom.full byte
    rw [hflush]
    exact ⟨o'', hhold, hroom.append hgains⟩
  · exact hold_of_working h byte

/-- Printing gives the device the bytes of the text. -/
theorem print_of_working (h : o.full = false) (text : String) :
    o.Gains (Utf8.encode text) (o.print text) := by
  rw [print, ← Utf8.encode]
  generalize Utf8.encode text = bytes
  induction bytes generalizing o with
  | nil => exact ⟨h, (List.append_nil _).symm⟩
  | cons byte bytes ih =>
    obtain ⟨o', hwrite, hgains⟩ := write_of_working h byte
    rw [List.foldl_cons, hwrite]
    exact hgains.append (ih hgains.full)

end Stdout

end Brainfuck
