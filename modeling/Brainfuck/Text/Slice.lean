/-
  Cutting a part out of a text, by bytes.

  A text is kept as bytes, and a character takes one to four of them.  To cut out characters that
  are COUNTED one has to find the bytes where they begin first (`byteIndex`), and cutting at a byte
  is possible only between two characters: `slice?` refuses bytes in the middle of a character,
  beyond the end or in the wrong order.

  Bytes that were found for characters are never refused, unless they are found in the wrong order
  (`slice?_byteIndex`).
-/

namespace Brainfuck.Text

/-- The byte at which the character with this number begins; the end of the text if it has not so
    many. -/
def byteIndex (text : String) (n : Nat) : Nat := scan text.toList n
where
  scan : List Char → Nat → Nat
    | [], _ => 0
    | _ :: _, 0 => 0
    | c :: rest, n + 1 => c.utf8Size + scan rest n

/-- The part of a text between two of its bytes, if a text can be cut there. -/
def slice? (text : String) (first last : Nat) : Option String :=
  if h : String.Pos.Raw.IsValid text ⟨first⟩ ∧ String.Pos.Raw.IsValid text ⟨last⟩
      ∧ first ≤ last then
    some (text.slice ⟨⟨first⟩, h.1⟩ ⟨⟨last⟩, h.2.1⟩ h.2.2).copy
  else none

/-- A character begins behind those before it. -/
theorem byteIndex_eq (text : String) (n : Nat) :
    byteIndex text n = (String.ofList (text.toList.take n)).utf8ByteSize := by
  have hscan (cs : List Char) (n : Nat) :
      byteIndex.scan cs n = (String.ofList (cs.take n)).utf8ByteSize := by
    induction cs generalizing n with
    | nil => rw [List.take_nil]; rfl
    | cons c rest ih =>
      cases n with
      | zero => rfl
      | succ n =>
        rw [byteIndex.scan, ih, List.take_succ_cons, String.ofList_cons,
          String.utf8ByteSize_append, String.utf8ByteSize_singleton]
  exact hscan text.toList n

example : byteIndex "é+" 1 = 2 ∧ byteIndex "+-" 5 = 2 := by decide

/-- A text can be cut between any two texts of which it consists. -/
theorem slice?_append (before part after : String) :
    slice? (before ++ part ++ after) before.utf8ByteSize
      (before.utf8ByteSize + part.utf8ByteSize) = some part := by
  have hend : (⟨before.utf8ByteSize + part.utf8ByteSize⟩ : String.Pos.Raw)
      = (before ++ part).rawEndPos := by
    rw [String.Pos.Raw.ext_iff, String.byteIdx_rawEndPos, String.utf8ByteSize_append]
  have hfirst : String.Pos.Raw.IsValid (before ++ part ++ after) ⟨before.utf8ByteSize⟩ :=
    String.Pos.Raw.isValid_iff_exists_append.mpr ⟨before, part ++ after, String.append_assoc, rfl⟩
  have hlast : String.Pos.Raw.IsValid (before ++ part ++ after)
      ⟨before.utf8ByteSize + part.utf8ByteSize⟩ :=
    String.Pos.Raw.isValid_iff_exists_append.mpr ⟨before ++ part, after, rfl, hend⟩
  have hsplits : String.Pos.Splits ⟨_, hfirst⟩ before (part ++ after) :=
    ⟨String.append_assoc, rfl⟩
  have hsplits' : String.Pos.Splits ⟨_, hlast⟩ (before ++ part) after := ⟨rfl, hend⟩
  obtain ⟨_, hcopy⟩ :=
    String.copy_slice_eq_iff_splits.mpr ⟨before, after, hsplits, hsplits'⟩
  rw [slice?, dif_pos ⟨hfirst, hlast, Nat.le_add_right _ _⟩, hcopy]

/-- **A text can be cut where its characters begin**, if they are in order.  Behind the last
    character all of them are at the same place, so their order does not matter there. -/
theorem slice?_byteIndex (text : String) {m n : Nat} (h : m ≤ n ∨ text.length ≤ n) :
    slice? text (byteIndex text m) (byteIndex text n)
      = some (String.ofList ((text.toList.take n).drop m)) := by
  have hordered {m n : Nat} (h : m ≤ n) : slice? text (byteIndex text m) (byteIndex text n)
      = some (String.ofList ((text.toList.take n).drop m)) := by
    have hinit : text.toList.take n = text.toList.take m ++ (text.toList.take n).drop m := by
      have hjoin := List.take_append_drop m (text.toList.take n)
      rw [List.take_take, Nat.min_eq_left h] at hjoin
      exact hjoin.symm
    have hbyte : byteIndex text n = byteIndex text m
        + (String.ofList ((text.toList.take n).drop m)).utf8ByteSize := by
      rw [byteIndex_eq, byteIndex_eq, hinit, String.ofList_append, String.utf8ByteSize_append,
        ← hinit]
    have htext : text = String.ofList (text.toList.take m)
        ++ String.ofList ((text.toList.take n).drop m) ++ String.ofList (text.toList.drop n) := by
      rw [← String.ofList_append, ← hinit, ← String.ofList_append, List.take_append_drop,
        String.ofList_toList]
    have hslice := slice?_append (String.ofList (text.toList.take m))
      (String.ofList ((text.toList.take n).drop m)) (String.ofList (text.toList.drop n))
    rw [← htext, ← byteIndex_eq, ← hbyte] at hslice
    exact hslice
  rcases h with h | hend
  · exact hordered h
  · rcases Nat.le_total m n with hle | hge
    · exact hordered hle
    · -- Both are at the end, and what lies between them is nothing.
      rw [← String.length_toList] at hend
      have hn : byteIndex text n = byteIndex text m := by
        rw [byteIndex_eq, byteIndex_eq, List.take_of_length_le hend,
          List.take_of_length_le (Nat.le_trans hend hge)]
      have hnothing : (text.toList.take m).drop m = (text.toList.take n).drop m := by
        rw [List.take_of_length_le hend, List.take_of_length_le (Nat.le_trans hend hge)]
      rw [hn, ← hnothing]
      exact hordered (Nat.le_refl m)

end Brainfuck.Text
