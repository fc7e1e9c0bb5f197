/-
  Numerals: which bytes stand for a number.

  Between the bytes of a variable and the number it is set to there are three steps, and each may
  fail on its own: bytes are read as text, blanks are removed at both ends, and what is left is read
  digit by digit under a bound.  Here each step is said without reading anything:

  * bytes are TEXT if some text is encoded by them (`Utf8.decode?_eq_some_iff`);
  * blanks at the ends are what can be taken away before the first and behind the last character that
    is not one (`Text.trim_eq`, `Text.exists_trim`);
  * a NUMERAL is an optional sign and digits, and its number is theirs (`Numeral.Denotes`).  Reading
    stops at the first digit with which the number gets too large, but digits only ever make a number
    larger, so it would have been too large at the end as well (`Numeral.digits_eq_ok_iff`).

  Put together, blanks around a numeral change nothing (`Numeral.parse?_trim_eq_some_iff`).
-/
import Brainfuck.Proofs.Output
import Brainfuck.Text.Blank
import Brainfuck.Text.Numeral

namespace Brainfuck

/-! ## Bytes -/

/-- **Bytes are the text that they encode.** -/
theorem Utf8.decode?_eq_some_iff {bytes : List UInt8} {text : String} :
    decode? bytes = some text ↔ bytes = encode text := by
  rw [decode?, String.fromUTF8?, encode_eq]
  split
  · next hvalid =>
    rw [Option.some_inj]
    constructor
    · rintro rfl
      rfl
    · intro h
      apply String.toByteArray_inj.mp
      show (⟨bytes.toArray⟩ : ByteArray) = text.toByteArray
      rw [h]
  · next hinvalid =>
    refine ⟨fun h => (nomatch h), ?_⟩
    rintro rfl
    exact absurd text.isValidUTF8 hinvalid

/-! ## Blanks -/

namespace Text

variable {before core after : List Char}

theorem trimStart_eq (hbefore : ∀ c ∈ before, isBlank c = true)
    (hfirst : ∀ c, core.head? = some c → isBlank c = false) :
    trimStart (before ++ core) = core := by
  rw [trimStart, List.dropWhile_append_of_pos hbefore]
  cases core with
  | nil => rfl
  | cons c rest => exact List.dropWhile_cons_of_neg (by simp [hfirst c rfl])

theorem trimEnd_eq (hafter : ∀ c ∈ after, isBlank c = true)
    (hlast : ∀ c, core.getLast? = some c → isBlank c = false) :
    trimEnd (core ++ after) = core := by
  have hstart : trimStart (after.reverse ++ core.reverse) = core.reverse := by
    refine trimStart_eq (fun c hc => hafter c (List.mem_reverse.mp hc)) ?_
    rw [List.head?_reverse]
    exact hlast
  rw [trimEnd, List.reverse_append, ← trimStart, hstart, List.reverse_reverse]

/-- Blanks around a text that neither begins nor ends with one are what is removed. -/
theorem trim_eq (hbefore : ∀ c ∈ before, isBlank c = true) (hafter : ∀ c ∈ after, isBlank c = true)
    (hne : core ≠ []) (hfirst : ∀ c, core.head? = some c → isBlank c = false)
    (hlast : ∀ c, core.getLast? = some c → isBlank c = false) :
    trim (before ++ core ++ after) = core := by
  rw [trim, List.append_assoc, trimStart_eq hbefore, trimEnd_eq hafter hlast]
  obtain ⟨d, rest, rfl⟩ := List.exists_cons_of_ne_nil hne
  exact hfirst

/-- Nothing but blanks is ever removed. -/
theorem exists_trim (cs : List Char) :
    ∃ before after, cs = before ++ trim cs ++ after
      ∧ (∀ c ∈ before, isBlank c = true) ∧ ∀ c ∈ after, isBlank c = true := by
  refine ⟨cs.takeWhile isBlank, ((trimStart cs).reverse.takeWhile isBlank).reverse, ?_, ?_, ?_⟩
  · have hend : trimEnd (trimStart cs) ++ ((trimStart cs).reverse.takeWhile isBlank).reverse
        = trimStart cs := by
      rw [trimEnd, ← List.reverse_append, List.takeWhile_append_dropWhile, List.reverse_reverse]
    rw [List.append_assoc, trim, hend, trimStart, List.takeWhile_append_dropWhile]
  · intro c hc
    exact List.all_eq_true.mp List.all_takeWhile c hc
  · intro c hc
    exact List.all_eq_true.mp List.all_takeWhile c (List.mem_reverse.mp hc)

end Text

/-! ## Numerals -/

namespace Numeral

/-- The digits, behind at most one plus sign, of a number. -/
def Denotes (cs : List Char) (n : Nat) : Prop :=
  ∃ ds, (cs = ds ∨ cs = '+' :: ds) ∧ ds ≠ [] ∧ (∀ c ∈ ds, c.isDigit = true)
    ∧ n = Nat.ofDigitChars 10 ds 0

/-- Digits only make a number larger. -/
theorem le_ofDigitChars (n : Nat) (cs : List Char) : n ≤ Nat.ofDigitChars 10 cs n := by
  rw [Nat.ofDigitChars_eq_ofDigitChars_zero]
  have hpos : 0 < 10 ^ cs.length := Nat.pow_pos (by decide)
  calc n = 1 * n := (Nat.one_mul n).symm
    _ ≤ 10 ^ cs.length * n := Nat.mul_le_mul_right n hpos
    _ ≤ _ := Nat.le_add_right _ _

/-- **Reading digits gives their number, if it is not too large**, wherever it gets too large. -/
theorem digits_eq_ok_iff {n m : Nat} {cs : List Char} (hn : n ≤ largest) :
    digits n cs = .ok m
      ↔ (∀ c ∈ cs, c.isDigit = true) ∧ m = Nat.ofDigitChars 10 cs n ∧ m ≤ largest := by
  induction cs generalizing n with
  | nil =>
    rw [digits, Nat.ofDigitChars_nil]
    constructor
    · intro h
      obtain rfl := Except.ok.inj h
      exact ⟨by simp, rfl, hn⟩
    · rintro ⟨-, rfl, -⟩
      rfl
  | cons c rest ih =>
    rw [digits, Nat.ofDigitChars_cons, Nat.mul_comm 10 n]
    cases hc : c.isDigit with
    | false => simp [digit?, hc]
    | true =>
      have hdigit : digit? c = some (c.toNat - '0'.toNat) := by simp [digit?, hc]
      simp only [hdigit, List.forall_mem_cons, hc, true_and]
      split
      · next hlarge =>
        constructor
        · intro h
          cases h
        · rintro ⟨-, rfl, hle⟩
          have hmore := le_ofDigitChars (n * 10 + (c.toNat - '0'.toNat)) rest
          omega
      · next hsmall => exact ih (by omega)

/-- Read from the beginning, behind a sign or not. -/
theorem digits_zero_eq_ok_iff {m : Nat} {cs : List Char} :
    digits 0 cs = .ok m
      ↔ (∀ c ∈ cs, c.isDigit = true) ∧ m = Nat.ofDigitChars 10 cs 0 ∧ m ≤ largest :=
  digits_eq_ok_iff (Nat.zero_le _)

theorem parse?_eq_some_iff {cs : List Char} {n : Nat} :
    parse? cs = some n ↔ Denotes cs n ∧ n < UInt64.size := by
  have hlargest : n ≤ largest ↔ n < UInt64.size := by
    show n ≤ UInt64.size - 1 ↔ _
    have hsize : 0 < UInt64.size := by decide
    omega
  have hoption (result : Except Flaw Nat) : result.toOption = some n ↔ result = .ok n := by
    cases result <;> simp [Except.toOption]
  rw [parse?, hoption, ← hlargest]
  unfold parse
  split
  · -- Nothing at all.
    refine ⟨fun h => (nomatch h), ?_⟩
    rintro ⟨⟨ds, rfl | hsign, hne, -⟩, -⟩
    · exact absurd rfl hne
    · nomatch hsign
  · -- A sign alone: it is no digit, and nothing is behind it.
    refine ⟨fun h => (nomatch h), ?_⟩
    rintro ⟨⟨ds, rfl | hsign, hne, hdigits, -⟩, -⟩
    · exact absurd (hdigits '+' (by simp)) (by decide)
    · obtain ⟨-, rfl⟩ := List.cons.inj hsign
      exact absurd rfl hne
  · next rest hrest =>
    rw [digits_zero_eq_ok_iff]
    constructor
    · rintro ⟨hdigits, hvalue, hle⟩
      exact ⟨⟨rest, .inr rfl, fun hnil => hrest (by rw [hnil]), hdigits, hvalue⟩, hle⟩
    · rintro ⟨⟨ds, rfl | hsign, hne, hdigits, hvalue⟩, hle⟩
      · exact absurd (hdigits '+' (by simp)) (by decide)
      · obtain ⟨-, rfl⟩ := List.cons.inj hsign
        exact ⟨hdigits, hvalue, hle⟩
  · next hempty hlone hplus =>
    rw [digits_zero_eq_ok_iff]
    constructor
    · rintro ⟨hdigits, hvalue, hle⟩
      exact ⟨⟨cs, .inl rfl, hempty, hdigits, hvalue⟩, hle⟩
    · rintro ⟨⟨ds, rfl | rfl, hne, hdigits, hvalue⟩, hle⟩
      · exact ⟨hdigits, hvalue, hle⟩
      · exact absurd rfl (hplus ds)

/-- No character of a numeral is blank. -/
theorem Denotes.not_blank {cs : List Char} {n : Nat} (h : Denotes cs n) {c : Char} (hc : c ∈ cs) :
    Text.isBlank c = false := by
  have hdigit {d : Char} (hd : d.isDigit = true) : Text.isBlank d = false := by
    rw [Char.isDigit_iff_toNat] at hd
    have hlow : 48 ≤ d.toNat := hd.1
    have hhigh : d.toNat ≤ 57 := hd.2
    simp only [Text.isBlank]
    grind
  obtain ⟨ds, rfl | rfl, -, hdigits, -⟩ := h
  · exact hdigit (hdigits c hc)
  · rcases List.mem_cons.mp hc with rfl | hc
    · decide
    · exact hdigit (hdigits c hc)

theorem Denotes.ne_nil {cs : List Char} {n : Nat} (h : Denotes cs n) : cs ≠ [] := by
  obtain ⟨ds, rfl | rfl, hne, -⟩ := h
  · exact hne
  · exact List.cons_ne_nil _ _

/-- A number that has 64 bits, written out between blanks. -/
def Written (n : Nat) (cs : List Char) : Prop :=
  ∃ before core after, cs = before ++ core ++ after ∧ (∀ c ∈ before, Text.isBlank c = true)
    ∧ (∀ c ∈ after, Text.isBlank c = true) ∧ Denotes core n ∧ n < UInt64.size

/-- **Blanks around a numeral change nothing**, and there is no other way to write a number. -/
theorem parse?_trim_eq_some_iff {cs : List Char} {n : Nat} :
    parse? (Text.trim cs) = some n ↔ Written n cs := by
  rw [parse?_eq_some_iff]
  constructor
  · rintro ⟨hdenotes, hn⟩
    obtain ⟨before, after, hcs, hbefore, hafter⟩ := Text.exists_trim cs
    exact ⟨before, _, after, hcs, hbefore, hafter, hdenotes, hn⟩
  · rintro ⟨before, core, after, rfl, hbefore, hafter, hdenotes, hn⟩
    have htrim : Text.trim (before ++ core ++ after) = core := by
      refine Text.trim_eq hbefore hafter hdenotes.ne_nil ?_ ?_
      · intro c hc
        exact hdenotes.not_blank (List.mem_of_mem_head? hc)
      · intro c hc
        exact hdenotes.not_blank (List.mem_of_getLast? hc)
    rw [htrim]
    exact ⟨hdenotes, hn⟩

end Numeral

end Brainfuck
