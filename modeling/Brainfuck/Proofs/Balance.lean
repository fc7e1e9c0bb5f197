/-
  Balance: what strict loading accepts, and which bracket it blames.

  Three descriptions of a balanced program are compared:

  1. the GRAMMAR, `Balanced` of the program's brackets;
  2. the COUNT, `Program.WellNested`: the level never falls below 0 and ends at 0;
  3. the TABLES: no bracket is without a partner.

  From the grammar to the count is an induction on the derivation.  Back, the last bracket of a
  well-nested program is a `]`; it closes something, and its pair cuts the program into the two
  balanced words of the grammar (`WellNested.balanced_brackets`).  Between the count and the
  tables stand the two ways of not being well nested: the level falls below 0 exactly if there is
  a stray `]`, the first of which is where that happens first (`FirstExcess.stray`), and a program
  that ends above 0 ends inside an open bracket (`exists_openAt`).
-/
import Mathlib.Logic.Basic
import Brainfuck.Code
import Brainfuck.Proofs.Pairing

namespace Brainfuck

namespace Program

/-! ## Levels of parts -/

variable {program : Program} {i j n : Nat}

theorem level_append (a b : Program) (n : Nat) :
    level (a ++ b) n = level a n + level b (n - a.length) := by
  rw [level, List.take_append, depth_append]
  rfl

/-- A pair cuts a program into what is before it, its body and what is behind it. -/
theorem Closes.eq_append (h : program.Closes i j) :
    program = program.take i
      ++ .loopOpen :: (program.drop (i + 1)).take (j - (i + 1))
      ++ .loopClose :: program.drop (j + 1) := by
  obtain ⟨hi, hopening⟩ := List.getElem?_eq_some_iff.mp h.opening
  obtain ⟨hj, hclosing⟩ := List.getElem?_eq_some_iff.mp h.closing
  have hbehind : (program.drop (i + 1)).drop (j - (i + 1)) = .loopClose :: program.drop (j + 1) := by
    have := h.lt
    rw [List.drop_drop, show i + 1 + (j - (i + 1)) = j by omega, List.drop_eq_getElem_cons hj,
      hclosing]
  rw [List.append_assoc, List.cons_append, ← hbehind, List.take_append_drop, ← hopening,
    ← List.drop_eq_getElem_cons hi, List.take_append_drop]

/-! ## Well-nested programs -/

/-- Nowhere have more brackets been closed than opened, and in the end as many. -/
structure WellNested (program : Program) : Prop where
  level_nonneg : ∀ n, 0 ≤ program.level n
  depth_eq_zero : depth program = 0

/-- Only brackets count. -/
@[simp] theorem depth_brackets (program : Program) : depth program.brackets = depth program := by
  induction program with
  | nil => rfl
  | cons x program ih =>
    rw [brackets] at ih ⊢
    rw [depth, ← ih]
    cases x with
    | loopOpen => rfl
    | loopClose => rfl
    | _ => exact (Int.zero_add _).symm

@[simp] theorem brackets_brackets (program : Program) :
    brackets program.brackets = program.brackets := by
  rw [brackets, brackets, List.filter_filter]
  simp

/-- The levels of a program are among those of its brackets. -/
theorem exists_level_brackets (program : Program) (n : Nat) :
    ∃ m, level program.brackets m = program.level n := by
  obtain ⟨rest, hrest⟩ : brackets (program.take n) <+: program.brackets :=
    (List.take_prefix n program).filter _
  refine ⟨(brackets (program.take n)).length, ?_⟩
  rw [level, ← hrest, List.take_left, depth_brackets, level]

theorem WellNested.of_brackets (h : WellNested program.brackets) : program.WellNested := by
  refine ⟨fun n => ?_, ?_⟩
  · obtain ⟨m, hm⟩ := exists_level_brackets program n
    rw [← hm]
    exact h.level_nonneg m
  · rw [← depth_brackets]
    exact h.depth_eq_zero

/-- A part of a program is well nested if it stays above the level at which it begins and ends
    there. -/
theorem wellNested_slice {m : Nat}
    (habove : ∀ k, i ≤ k → k ≤ i + m → program.level i ≤ program.level k)
    (hend : program.level (i + m) = program.level i) :
    WellNested ((program.drop i).take m) := by
  refine ⟨fun n => ?_, ?_⟩
  · rw [level, List.take_take, depth_take_drop]
    have := habove (i + min n m) (Nat.le_add_right i _) (by omega)
    omega
  · rw [depth_take_drop, hend, Int.sub_self]

/-- So is a beginning that ends at level 0. -/
theorem WellNested.take (h : program.WellNested) (hend : program.level n = 0) :
    WellNested (program.take n) := by
  have hslice : WellNested ((program.drop 0).take n) := by
    refine wellNested_slice (fun k _ _ => h.level_nonneg k) ?_
    rw [Nat.zero_add, hend, level_zero]
  rwa [List.drop_zero] at hslice

/-- And so is the body of a pair. -/
theorem Closes.wellNested_body (h : program.Closes i j) :
    WellNested ((program.drop (i + 1)).take (j - (i + 1))) := by
  have hopening := level_succ_of_loopOpen h.opening
  have hclosing := level_succ_of_loopClose h.closing
  have hback := h.level_eq
  have hj : i + 1 + (j - (i + 1)) = j := Nat.add_sub_of_le h.lt
  refine wellNested_slice (fun k hik hk => ?_) ?_
  · have := h.openAt.above k hik (by omega)
    omega
  · rw [hj]; omega

/-! ### The count and the grammar -/

/-- Every balanced word is well nested. -/
theorem wellNested_of_balanced {word : Program} (h : Balanced word) : WellNested word := by
  refine ⟨?_, h.depth_eq_zero⟩
  induction h with
  | empty =>
    intro n
    rw [level, List.take_nil]
    exact Int.le_refl 0
  | @loop before body hbefore hbody ihbefore ihbody =>
    intro n
    -- `before` ends at 0, the `[` adds one, `body` ends there again, and only then comes the `]`.
    have hclose (m : Nat) : -1 ≤ level [.loopClose] m := by
      cases m with
      | zero => rw [level_zero]; omega
      | succ m => rw [level_of_length_le (by simp)]; decide
    have hloop (m : Nat) : 0 ≤ level (.loopOpen :: (body ++ [.loopClose])) m := by
      cases m with
      | zero => exact Int.le_refl 0
      | succ m =>
        have hbody := ihbody m
        have hend := hclose (m - body.length)
        rw [level, depth_take_succ_cons, ← level, level_append]
        show 0 ≤ 1 + _
        omega
    rw [List.append_assoc, List.cons_append, level_append]
    exact Int.add_nonneg (ihbefore n) (hloop _)

theorem brackets_append (a b : Program) : brackets (a ++ b) = brackets a ++ brackets b :=
  List.filter_append ..

/-- **The brackets of a well-nested program are balanced.** -/
theorem WellNested.balanced_brackets (h : program.WellNested) : Balanced program.brackets := by
  -- By induction on the length: the last bracket and its partner cut the program in two.
  induction hlen : program.length using Nat.strongRecOn generalizing program with
  | ind len ih =>
    cases len with
    | zero =>
      rw [List.length_eq_zero_iff.mp hlen]
      exact .empty
    | succ len =>
      have hend : program.level (len + 1) = 0 := by
        rw [← hlen, level_length]; exact h.depth_eq_zero
      have hlevel := h.level_nonneg len
      by_cases hclose : program[len]? = some .loopClose
      · obtain ⟨i, hi⟩ : ∃ i, program.Closes i len :=
          exists_closes hclose (Nat.zero_le len) (Int.le_of_eq hend.symm)
        have hlt := hi.lt
        have hbefore := ih i (by omega) (h.take (hi.level_eq ▸ hend)) (by
          rw [List.length_take]; omega)
        have hbody := ih (len - (i + 1)) (by omega) hi.wellNested_body (by
          rw [List.length_take, List.length_drop]; omega)
        have hbehind : program.drop (len + 1) = [] := List.drop_eq_nil_of_le (Nat.le_of_eq hlen)
        rw [hi.eq_append, hbehind, brackets_append, brackets_append]
        exact .loop hbefore hbody
      · -- What is no `]` in the last place is no bracket at all.
        have hopen : program[len]? ≠ some .loopOpen := by
          intro hopen
          rw [level_succ_of_loopOpen hopen] at hend
          omega
        have hlast := level_succ_of_ne hopen hclose
        have hinit := ih len (Nat.lt_succ_self len) (h.take (hlast ▸ hend)) (by
          rw [List.length_take]; omega)
        obtain ⟨x, hx⟩ : ∃ x, program[len]? = some x := by
          rw [List.getElem?_eq_getElem (by omega)]
          exact ⟨_, rfl⟩
        have hprogram : program = program.take len ++ [x] := by
          rw [← Option.toList_some, ← hx, ← List.take_add_one, ← hlen, List.take_length]
        have hbrackets : brackets [x] = [] := by
          rw [hx] at hopen hclose
          cases x with
          | loopOpen => exact absurd rfl hopen
          | loopClose => exact absurd rfl hclose
          | _ => rfl
        rw [hprogram, brackets_append, hbrackets, List.append_nil]
        exact hinit

theorem balanced_brackets_iff : Balanced program.brackets ↔ program.WellNested :=
  ⟨fun h => (wellNested_of_balanced h).of_brackets, WellNested.balanced_brackets⟩

/-! ### The count on words -/

theorem depth_eq_count (program : Program) :
    depth program = program.count .loopOpen - program.count .loopClose := by
  induction program with
  | nil => rfl
  | cons x program ih =>
    rw [depth, ih, List.count_cons, List.count_cons]
    cases x with
    | loopOpen => show 1 + _ = _; simp; omega
    | loopClose => show -1 + _ = _; simp; omega
    | _ => show 0 + _ = _; simp

/-- Well nested, said with prefixes and counts. -/
theorem wellNested_iff_count :
    program.WellNested ↔ (∀ word, word <+: program → word.count .loopClose ≤ word.count .loopOpen)
      ∧ program.count .loopOpen = program.count .loopClose := by
  have hdepth := depth_eq_count program
  constructor
  · intro h
    refine ⟨fun word hword => ?_, ?_⟩
    · have hlevel := h.level_nonneg word.length
      rw [level, ← List.prefix_iff_eq_take.mp hword, depth_eq_count] at hlevel
      omega
    · have := h.depth_eq_zero
      omega
  · rintro ⟨hwords, htotal⟩
    refine ⟨fun n => ?_, by omega⟩
    have hcount := hwords (program.take n) (List.take_prefix n program)
    rw [level, depth_eq_count]
    omega

/-! ## The bracket that is blamed -/

/-- The `]` at `j` ends the shortest beginning of the program in which more brackets are closed
    than opened. -/
structure FirstExcess (program : Program) (j : Nat) : Prop where
  closing : program[j]? = some .loopClose
  excess : program.level (j + 1) < 0
  shortest : ∀ n, n ≤ j → 0 ≤ program.level n

/-- From the `[` at `i` on the depth never returns to what it was before. -/
structure NeverReturns (program : Program) (i : Nat) : Prop where
  opening : program[i]? = some .loopOpen
  level_ne : ∀ n, i < n → n ≤ program.length → program.level n ≠ program.level i

/-- The bracket for which a program is refused: the `]` with which the first excess is reached if
    there is an excess at all, and otherwise the leftmost `[` from which the depth never
    returns. -/
inductive Blamed (program : Program) : Unmatched → Prop
  | excess {j : Nat} (h : program.FirstExcess j) : Blamed program ⟨j, .closing⟩
  | unclosed {i : Nat} (hlevel : ∀ n, 0 ≤ program.level n) (h : program.NeverReturns i)
      (hleftmost : ∀ i', program.NeverReturns i' → i ≤ i') : Blamed program ⟨i, .opening⟩

/-- An excess is reached with a first one. -/
theorem exists_firstExcess (h : program.level n < 0) : ∃ j, j < n ∧ program.FirstExcess j := by
  induction n using Nat.strongRecOn with
  | ind n ih =>
    by_cases hearlier : ∃ m, m < n ∧ program.level m < 0
    · obtain ⟨m, hmn, hm⟩ := hearlier
      obtain ⟨j, hj, hfirst⟩ := ih m hmn hm
      exact ⟨j, Nat.lt_trans hj hmn, hfirst⟩
    · cases n with
      | zero => exact absurd h (Int.lt_irrefl 0)
      | succ n =>
        have hshortest : ∀ m, m ≤ n → 0 ≤ program.level m := fun m hm =>
          Int.not_lt.mp fun hneg => hearlier ⟨m, Nat.lt_succ_of_le hm, hneg⟩
        have hn := hshortest n (Nat.le_refl n)
        exact ⟨n, Nat.lt_succ_self n, loopClose_of_level_lt (by omega), h, hshortest⟩

theorem FirstExcess.stray (h : program.FirstExcess j) : program.Stray j :=
  stray_of_level_lt fun k hk => Int.lt_of_lt_of_le h.excess (h.shortest k hk)

theorem Stray.level_neg (h : program.Stray j) : program.level (j + 1) < 0 :=
  h.level_lt (Nat.zero_le j)

/-- To be open at the end is never to return. -/
theorem openAt_length_iff : program.OpenAt program.length i ↔ program.NeverReturns i := by
  constructor
  · intro h
    exact ⟨h.opening, fun n hin hn heq => Int.lt_irrefl _ (heq ▸ h.above n hin hn)⟩
  · intro h
    exact openAt_of_ne h.opening (List.getElem?_eq_some_iff.mp h.opening).1 h.level_ne

/-- **The blamed bracket is the leftmost one without a partner.** -/
theorem blamed_iff {u : Unmatched} :
    program.Blamed u
      ↔ program.Partnerless u ∧ ∀ v, program.Partnerless v → u.index ≤ v.index := by
  constructor
  · rintro (⟨h⟩ | ⟨hlevel, h, hleftmost⟩)
    · refine ⟨.stray h.stray, ?_⟩
      rintro v (@⟨k, hv⟩ | ⟨hv⟩)
      · -- Another stray cannot come before the first excess.
        exact Nat.not_lt.mp fun hlt => absurd (h.shortest (k + 1) hlt) (Int.not_le.mpr hv.level_neg)
      · exact Nat.le_of_lt (h.stray.lt_of_openAt hv)
    · refine ⟨.unclosed (openAt_length_iff.mpr h), ?_⟩
      rintro v (⟨hv⟩ | ⟨hv⟩)
      · exact absurd (hlevel _) (Int.not_le.mpr hv.level_neg)
      · exact hleftmost _ (openAt_length_iff.mp hv)
  · rintro ⟨⟨hu⟩ | ⟨hu⟩, hleast⟩
    · refine .excess ⟨hu.closing, hu.level_neg, fun n hn => Int.not_lt.mp fun hneg => ?_⟩
      obtain ⟨j, hj, hfirst⟩ := exists_firstExcess hneg
      exact absurd (hleast _ (.stray hfirst.stray)) (Nat.not_le_of_lt (Nat.lt_of_lt_of_le hj hn))
    · refine .unclosed (fun n => Int.not_lt.mp fun hneg => ?_) (openAt_length_iff.mp hu) ?_
      · obtain ⟨j, -, hfirst⟩ := exists_firstExcess hneg
        exact absurd (hleast _ (.stray hfirst.stray))
          (Nat.not_le_of_lt (hfirst.stray.lt_of_openAt hu))
      · intro i' hi'
        exact hleast _ (.unclosed (openAt_length_iff.mpr hi'))

/-- **A program is well nested exactly if every bracket has a partner.** -/
theorem wellNested_iff_forall_not_partnerless :
    program.WellNested ↔ ∀ u, ¬ program.Partnerless u := by
  constructor
  · rintro h u (⟨hu⟩ | ⟨hu⟩)
    · exact absurd (h.level_nonneg _) (Int.not_le.mpr hu.level_neg)
    · have habove := hu.above _ hu.lt (Nat.le_refl _)
      rw [level_length, h.depth_eq_zero] at habove
      exact absurd (h.level_nonneg _) (Int.not_le.mpr habove)
  · intro h
    have hlevel : ∀ n, 0 ≤ program.level n := fun n => Int.not_lt.mp fun hneg => by
      obtain ⟨j, -, hfirst⟩ := exists_firstExcess hneg
      exact h _ (.stray hfirst.stray)
    refine ⟨hlevel, Int.le_antisymm (Int.not_lt.mp fun hpos => ?_) ?_⟩
    · rw [← level_length] at hpos
      obtain ⟨i, hopen, -⟩ := exists_openAt (Nat.zero_le program.length) hpos
      exact h _ (.unclosed hopen)
    · rw [← level_length]; exact hlevel _

end Program

/-! ## Strict loading -/

namespace Loops

theorem validate_eq_ok_iff {program : Program} :
    (ofProgram program).validate = .ok () ↔ program.WellNested := by
  rw [Program.wellNested_iff_forall_not_partnerless, ← firstUnmatched?_eq_none_iff, validate]
  cases (ofProgram program).firstUnmatched? with
  | none => exact ⟨fun _ => rfl, fun _ => rfl⟩
  | some u => exact ⟨(nomatch ·), (nomatch ·)⟩

theorem validate_eq_error_iff {program : Program} {u : Unmatched} :
    (ofProgram program).validate = .error u ↔ program.Blamed u := by
  rw [Program.blamed_iff, ← firstUnmatched?_eq_some_iff, validate]
  cases (ofProgram program).firstUnmatched? with
  | none => exact ⟨(nomatch ·), (nomatch ·)⟩
  | some v => simp

end Loops

namespace Code

/-- Loading reports what the check of the brackets reports. -/
theorem load_eq (text : String) :
    load text = match (ofText text).loops.validate with
      | .ok () => .ok (ofText text)
      | .error u => .error (.unmatched u.index u.side) := rfl

theorem load_eq_ok_iff {text : String} :
    load text = .ok (ofText text) ↔ (ofText text).loops.validate = .ok () := by
  rw [load_eq]
  cases (ofText text).loops.validate with
  | ok => exact ⟨fun _ => rfl, fun _ => rfl⟩
  | error u => exact ⟨(nomatch ·), (nomatch ·)⟩

theorem load_eq_error_iff {text : String} {fault : Fault} :
    load text = .error fault ↔ ∃ u, (ofText text).loops.validate = .error u
      ∧ fault = .unmatched u.index u.side := by
  rw [load_eq]
  cases (ofText text).loops.validate with
  | ok => exact ⟨(nomatch ·), fun ⟨_, h, _⟩ => nomatch h⟩
  | error u => simp [eq_comm]

/-- **Strict loading accepts exactly the balanced programs and blames the right bracket.**  For
    every text, the check of the brackets succeeds exactly if the program's brackets are a
    balanced word — by the grammar, or by counting in every beginning and in the whole — and
    otherwise reports the bracket that `Program.Blamed` describes.  Loading succeeds with the check
    and fails with the same position and side. -/
theorem load_accepts_exactly_balanced (text : String) :
    ((ofText text).loops.validate = .ok () ↔ Balanced (Program.ofText text).brackets)
      ∧ (Balanced (Program.ofText text).brackets
          ↔ (∀ word, word <+: (Program.ofText text).brackets →
              word.count .loopClose ≤ word.count .loopOpen)
            ∧ (Program.ofText text).brackets.count .loopOpen
              = (Program.ofText text).brackets.count .loopClose)
      ∧ (∀ u, (ofText text).loops.validate = .error u ↔ (Program.ofText text).Blamed u)
      ∧ (load text = .ok (ofText text) ↔ Balanced (Program.ofText text).brackets)
      ∧ (∀ fault, load text = .error fault
          ↔ ∃ u, (Program.ofText text).Blamed u ∧ fault = .unmatched u.index u.side) := by
  have hok : (ofText text).loops.validate = .ok () ↔ Balanced (Program.ofText text).brackets := by
    rw [Program.balanced_brackets_iff]
    exact Loops.validate_eq_ok_iff
  have herror (u : Unmatched) :
      (ofText text).loops.validate = .error u ↔ (Program.ofText text).Blamed u :=
    Loops.validate_eq_error_iff
  refine ⟨hok, ?_, herror, load_eq_ok_iff.trans hok, fun fault => ?_⟩
  · rw [← Program.wellNested_iff_count, ← Program.balanced_brackets_iff, Program.brackets_brackets]
  · rw [load_eq_error_iff]
    exact exists_congr fun u => and_congr_left' (herror u)

end Code

end Brainfuck
