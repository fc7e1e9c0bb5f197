/-
  The pass over a program finds the pairs that the depth defines.

  `Loops.ofProgram` never counts a depth: it keeps the brackets that wait for a partner on a
  stack.  What ties the two together is the invariant `Pairing.Covers program n p`, read "`p` is
  what the pass knows when it has come to position `n`":

  * both tables hold exactly the pairs that are closed before `n`;
  * the brackets on the stack are exactly those OPEN at `n`, the last one on top;
  * the strays are exactly the brackets before `n` that close nothing, in their order.

  The one step with something to prove is a `]` on a stack that is not empty
  (`Covers.closes_top`).  The level falls to a value it has had before, so the bracket closes
  something (`Program.exists_closes`), which is open, so it is on the stack; and it is the top,
  since whatever lies under the top has a lower level.

  At the end of the program the invariant says what the tables hold, and that the list of
  brackets without a partner is complete and ascends although nothing has sorted it.
-/
import Brainfuck.Loops
import Brainfuck.Proofs.Depth

namespace Brainfuck

namespace Pairing

/-! ## The invariant -/

variable {program : Program} {n : Nat} {p : Pairing}

/-- What the pass knows when it has come to position `n` of the program. -/
structure Covers (program : Program) (n : Nat) (p : Pairing) : Prop where
  size_closeTable : p.closeTable.size = program.length
  size_openTable : p.openTable.size = program.length
  closeTable : ∀ i j, p.closeTable[i]? = some (some j) ↔ program.Closes i j ∧ j < n
  openTable : ∀ i j, p.openTable[j]? = some (some i) ↔ program.Closes i j ∧ j < n
  waiting : ∀ i, i ∈ p.waiting ↔ program.OpenAt n i
  waiting_descending : p.waiting.Pairwise (· > ·)
  strays : ∀ j, j ∈ p.strays.toList ↔ program.Stray j ∧ j < n
  strays_ascending : p.strays.toList.Pairwise (· < ·)

/-- Before the first instruction there are no pairs and nothing waits. -/
theorem covers_start (program : Program) : Covers program 0 (start program.length) where
  size_closeTable := Array.size_replicate
  size_openTable := Array.size_replicate
  closeTable i j := by simp [start, Array.getElem?_replicate]
  openTable i j := by simp [start, Array.getElem?_replicate]
  waiting i := by
    constructor
    · intro h
      nomatch h
    · intro h
      exact absurd h.lt (Nat.not_lt_zero i)
  waiting_descending := .nil
  strays j := by simp [start]
  strays_ascending := .nil

/-! ## One instruction -/

/-- What holds before `n + 1` and not at `n` holds before `n`. -/
theorem and_lt_succ_iff_of_not {P : Nat → Prop} {j : Nat} (h : ¬ P n) :
    P j ∧ j < n + 1 ↔ P j ∧ j < n := by
  constructor
  · rintro ⟨hP, hlt⟩
    refine ⟨hP, Nat.lt_of_le_of_ne (Nat.le_of_lt_succ hlt) ?_⟩
    rintro rfl
    exact h hP
  · rintro ⟨hP, hlt⟩
    exact ⟨hP, Nat.lt_succ_of_lt hlt⟩

/-- What is no `]` closes nothing. -/
theorem not_closes_of_ne (h : program[n]? ≠ some .loopClose) (i : Nat) :
    ¬ program.Closes i n := fun hcloses => h hcloses.closing

/-- Nothing waits that has not been visited. -/
theorem Covers.waiting_lt (h : Covers program n p) {i : Nat} (hi : i ∈ p.waiting) : i < n :=
  ((h.waiting i).mp hi).lt

/-- What is no `]` is in no pair that closes there and is no stray, whatever waits after it. -/
theorem Covers.pass (h : Covers program n p) (hclose : program[n]? ≠ some .loopClose)
    {waiting : List Nat} (hwaiting : ∀ i, i ∈ waiting ↔ program.OpenAt (n + 1) i)
    (hdescending : waiting.Pairwise (· > ·)) :
    Covers program (n + 1) { p with waiting } where
  size_closeTable := h.size_closeTable
  size_openTable := h.size_openTable
  closeTable i j := by
    rw [and_lt_succ_iff_of_not (not_closes_of_ne hclose i)]; exact h.closeTable i j
  openTable i j := by
    rw [and_lt_succ_iff_of_not (not_closes_of_ne hclose i)]; exact h.openTable i j
  waiting := hwaiting
  waiting_descending := hdescending
  strays j := by
    rw [and_lt_succ_iff_of_not fun hstray => hclose hstray.closing]; exact h.strays j
  strays_ascending := h.strays_ascending

/-- An instruction that is no bracket leaves all as it is. -/
theorem Covers.skip (h : Covers program n p) (hopen : program[n]? ≠ some .loopOpen)
    (hclose : program[n]? ≠ some .loopClose) : Covers program (n + 1) p := by
  refine h.pass hclose (fun i => ?_) h.waiting_descending
  rw [h.waiting, Program.openAt_succ_iff]
  constructor
  · intro hi
    exact .inr ⟨hi, not_closes_of_ne hclose i⟩
  · rintro (⟨-, hopening⟩ | ⟨hi, -⟩)
    · exact absurd hopening hopen
    · exact hi

/-- A `[` waits, on top of all that waits already. -/
theorem Covers.push (h : Covers program n p) (hopen : program[n]? = some .loopOpen) :
    Covers program (n + 1) { p with waiting := n :: p.waiting } := by
  have hclose : program[n]? ≠ some .loopClose := by rw [hopen]; decide
  refine h.pass hclose (fun i => ?_) (.cons (fun _ hi => h.waiting_lt hi) h.waiting_descending)
  rw [List.mem_cons, h.waiting, Program.openAt_succ_iff]
  constructor
  · rintro (rfl | hi)
    · exact .inl ⟨rfl, hopen⟩
    · exact .inr ⟨hi, not_closes_of_ne hclose i⟩
  · rintro (⟨rfl, -⟩ | ⟨hi, -⟩)
    · exact .inl rfl
    · exact .inr hi

/-- With nothing waiting a `]` closes nothing. -/
theorem Covers.stray (h : Covers program n p) (hclose : program[n]? = some .loopClose)
    (hempty : p.waiting = []) : program.Stray n := by
  refine ⟨hclose, fun i hcloses => ?_⟩
  have hi : i ∈ p.waiting := (h.waiting i).mpr hcloses.openAt
  rw [hempty] at hi
  nomatch hi

/-- **With something waiting a `]` closes the top of the stack.** -/
theorem Covers.closes_top (h : Covers program n p) (hclose : program[n]? = some .loopClose)
    {top : Nat} {outer : List Nat} (hwaiting : p.waiting = top :: outer) :
    program.Closes top n := by
  have htop : program.OpenAt n top := by
    rw [← h.waiting, hwaiting]; exact List.mem_cons_self
  have hlevel : program.level top ≤ program.level (n + 1) := by
    have habove := htop.above n htop.lt (Nat.le_refl n)
    rw [Program.level_succ_of_loopClose hclose]
    omega
  obtain ⟨i, hcloses⟩ := Program.exists_closes hclose (Nat.le_of_lt htop.lt) hlevel
  have hi : i ∈ p.waiting := (h.waiting i).mpr hcloses.openAt
  rw [hwaiting] at hi
  cases hi with
  | head => exact hcloses
  | tail _ hi =>
    -- Under the top the level is lower than where this bracket leads.
    have hdescending := h.waiting_descending
    rw [hwaiting] at hdescending
    have hlt : i < top := List.rel_of_pairwise_cons hdescending hi
    have habove := hcloses.openAt.above top hlt (Nat.le_of_lt htop.lt)
    rw [← hcloses.level_eq] at habove
    omega

/-- A `]` with nothing to close is set aside. -/
theorem Covers.set_aside (h : Covers program n p) (hclose : program[n]? = some .loopClose)
    (hempty : p.waiting = []) :
    Covers program (n + 1) { p with strays := p.strays.push n } := by
  have hstray := h.stray hclose hempty
  refine { h with closeTable := fun i j => ?_, openTable := fun i j => ?_, waiting := fun i => ?_,
                  strays := fun j => ?_, strays_ascending := ?_ }
  · rw [and_lt_succ_iff_of_not (hstray.closes_nothing i)]; exact h.closeTable i j
  · rw [and_lt_succ_iff_of_not (hstray.closes_nothing i)]; exact h.openTable i j
  · rw [h.waiting, Program.openAt_succ_iff, hclose]
    constructor
    · intro hi
      exact .inr ⟨hi, hstray.closes_nothing i⟩
    · rintro (⟨-, hopening⟩ | ⟨hi, -⟩)
      · nomatch hopening
      · exact hi
  · rw [Array.toList_push, List.mem_append, List.mem_singleton, h.strays]
    constructor
    · rintro (⟨hj, hlt⟩ | rfl)
      · exact ⟨hj, Nat.lt_succ_of_lt hlt⟩
      · exact ⟨hstray, Nat.lt_succ_self j⟩
    · rintro ⟨hj, hlt⟩
      rcases Nat.lt_or_eq_of_le (Nat.le_of_lt_succ hlt) with hlt | rfl
      · exact .inl ⟨hj, hlt⟩
      · exact .inr rfl
  · rw [Array.toList_push, List.pairwise_append]
    refine ⟨h.strays_ascending, List.pairwise_singleton _ _, fun j hj k hk => ?_⟩
    rw [List.mem_singleton.mp hk]
    exact ((h.strays j).mp hj).2

/-- The top of the stack and a `]` are entered in both tables. -/
theorem Covers.pop (h : Covers program n p) (hclose : program[n]? = some .loopClose)
    {top : Nat} {outer : List Nat} (hwaiting : p.waiting = top :: outer) :
    Covers program (n + 1)
      { p with
        closeTable := p.closeTable.setIfInBounds top (some n)
        openTable := p.openTable.setIfInBounds n (some top)
        waiting := outer
        pairs := p.pairs + 1 } := by
  have hcloses := h.closes_top hclose hwaiting
  have hdescending := h.waiting_descending
  rw [hwaiting] at hdescending
  refine { size_closeTable := ?_, size_openTable := ?_, closeTable := fun i j => ?_,
           openTable := fun i j => ?_, waiting := fun i => ?_, waiting_descending := ?_,
           strays := fun j => ?_, strays_ascending := h.strays_ascending }
  · rw [Array.size_setIfInBounds]; exact h.size_closeTable
  · rw [Array.size_setIfInBounds]; exact h.size_openTable
  · rw [Array.getElem?_setIfInBounds]
    by_cases hi : top = i
    · subst hi
      rw [if_pos rfl, if_pos (by rw [h.size_closeTable]; exact Nat.lt_trans hcloses.lt hcloses.lt_length)]
      constructor
      · rintro ⟨rfl⟩
        exact ⟨hcloses, Nat.lt_succ_self n⟩
      · rintro ⟨hj, -⟩
        rw [hcloses.right_unique hj]
    · rw [if_neg hi, and_lt_succ_iff_of_not fun hi' => hi (hcloses.left_unique hi')]
      exact h.closeTable i j
  · rw [Array.getElem?_setIfInBounds]
    by_cases hj : n = j
    · subst hj
      rw [if_pos rfl, if_pos (by rw [h.size_openTable]; exact hcloses.lt_length)]
      constructor
      · rintro ⟨rfl⟩
        exact ⟨hcloses, Nat.lt_succ_self n⟩
      · rintro ⟨hi, -⟩
        rw [hcloses.left_unique hi]
    · rw [if_neg hj, h.openTable]
      constructor
      · rintro ⟨hi, hlt⟩
        exact ⟨hi, Nat.lt_succ_of_lt hlt⟩
      · rintro ⟨hi, hlt⟩
        exact ⟨hi, by omega⟩
  · have hmem : program.OpenAt n i ↔ i = top ∨ i ∈ outer := by
      rw [← h.waiting, hwaiting, List.mem_cons]
    rw [Program.openAt_succ_iff, hclose, hmem]
    constructor
    · intro hi
      refine .inr ⟨.inr hi, fun hcloses' => ?_⟩
      have hlt : i < top := List.rel_of_pairwise_cons hdescending hi
      exact Nat.ne_of_lt hlt (hcloses'.left_unique hcloses)
    · rintro (⟨-, hopening⟩ | ⟨rfl | hi, hnot⟩)
      · nomatch hopening
      · exact absurd hcloses hnot
      · exact hi
  · exact hdescending.of_cons
  · rw [and_lt_succ_iff_of_not fun hstray => hstray.closes_nothing top hcloses]
    exact h.strays j

/-- **One instruction keeps the invariant.** -/
theorem Covers.visit (h : Covers program n p) {x : Instruction} (hx : program[n]? = some x) :
    Covers program (n + 1) (p.visit n x) := by
  by_cases hopen : x = .loopOpen
  · subst hopen
    exact h.push hx
  · by_cases hclose : x = .loopClose
    · subst hclose
      rw [Pairing.visit]
      split
      · next hwaiting => exact h.set_aside hx hwaiting
      · next hwaiting => exact h.pop hx hwaiting
    · have hvisit : p.visit n x = p := by
        cases x with
        | loopOpen => exact absurd rfl hopen
        | loopClose => exact absurd rfl hclose
        | _ => rfl
      rw [hvisit]
      refine h.skip ?_ ?_
      · rw [hx]; exact fun heq => hopen (Option.some.inj heq)
      · rw [hx]; exact fun heq => hclose (Option.some.inj heq)

/-! ## The whole pass -/

/-- The pass over what is left of the program, from wherever it has come to. -/
theorem Covers.visitAll {rest : Program} (h : Covers program n p) (hrest : program.drop n = rest) :
    Covers program (n + rest.length) (visitAll rest n p) := by
  induction rest generalizing n p with
  | nil => exact h
  | cons x rest ih =>
    have hx : program[n]? = some x := by rw [← List.head?_drop, hrest]; rfl
    have hdrop : program.drop (n + 1) = rest := by rw [← List.tail_drop, hrest]; rfl
    have := ih (h.visit hx) hdrop
    rw [Pairing.visitAll, List.length_cons, ← Nat.add_right_comm, Nat.add_assoc] at *
    exact this

/-- At the end the pass knows every pair, every stray and every bracket that is left open. -/
theorem covers_visitAll (program : Program) :
    Covers program program.length (visitAll program 0 (start program.length)) := by
  have h := (covers_start program).visitAll rfl
  rwa [Nat.zero_add] at h

end Pairing

/-- A bracket without a partner: a `]` that closes nothing or a `[` that is open at the end. -/
inductive Program.Partnerless (program : Program) : Unmatched → Prop
  | stray {j : Nat} (h : program.Stray j) : Partnerless program ⟨j, .closing⟩
  | unclosed {i : Nat} (h : program.OpenAt program.length i) : Partnerless program ⟨i, .opening⟩

namespace Loops

/-! ## The list of unmatched brackets -/

theorem mem_unmatched_iff {program : Program} {u : Unmatched} :
    u ∈ (ofProgram program).unmatched ↔ program.Partnerless u := by
  have hcovers := Pairing.covers_visitAll program
  rw [ofProgram, List.mem_append, List.mem_map, List.mem_map]
  constructor
  · rintro (⟨j, hj, rfl⟩ | ⟨i, hi, rfl⟩)
    · exact .stray ((hcovers.strays j).mp hj).1
    · exact .unclosed ((hcovers.waiting i).mp (List.mem_reverse.mp hi))
  · rintro (⟨h⟩ | ⟨h⟩)
    · have hlt := (List.getElem?_eq_some_iff.mp h.closing).1
      exact .inl ⟨_, (hcovers.strays _).mpr ⟨h, hlt⟩, rfl⟩
    · exact .inr ⟨_, List.mem_reverse.mpr ((hcovers.waiting _).mpr h), rfl⟩

/-- The list ascends without having been sorted. -/
theorem unmatched_ascending (program : Program) :
    (ofProgram program).unmatched.Pairwise fun u v => u.index < v.index := by
  have hcovers := Pairing.covers_visitAll program
  rw [ofProgram, List.pairwise_append, List.pairwise_map, List.pairwise_map, List.pairwise_reverse]
  refine ⟨hcovers.strays_ascending, hcovers.waiting_descending, fun u hu v hv => ?_⟩
  obtain ⟨j, hj, rfl⟩ := List.mem_map.mp hu
  obtain ⟨i, hi, rfl⟩ := List.mem_map.mp hv
  have hstray := ((hcovers.strays j).mp hj).1
  have hopen := (hcovers.waiting i).mp (List.mem_reverse.mp hi)
  exact hstray.lt_of_openAt hopen

example : (ofProgram (Program.ofText "a][[]")).unmatched = [⟨0, .closing⟩, ⟨1, .opening⟩] := by
  decide

/-- **The bracket that is blamed is the leftmost one without a partner.** -/
theorem firstUnmatched?_eq_some_iff {program : Program} {u : Unmatched} :
    (ofProgram program).firstUnmatched? = some u
      ↔ program.Partnerless u ∧ ∀ v, program.Partnerless v → u.index ≤ v.index := by
  have hascending := unmatched_ascending program
  simp only [← mem_unmatched_iff, firstUnmatched?]
  cases hlist : (ofProgram program).unmatched with
  | nil => simp
  | cons first rest =>
    rw [hlist] at hascending
    rw [List.head?_cons, Option.some_inj]
    constructor
    · rintro rfl
      refine ⟨List.mem_cons_self, fun v hv => ?_⟩
      rcases List.mem_cons.mp hv with rfl | hv
      · exact Nat.le_refl _
      · exact Nat.le_of_lt (List.rel_of_pairwise_cons hascending hv)
    · rintro ⟨hu, hleast⟩
      rcases List.mem_cons.mp hu with rfl | hu
      · rfl
      · have hlt := List.rel_of_pairwise_cons hascending hu
        exact absurd (hleast first List.mem_cons_self) (Nat.not_le_of_lt hlt)

theorem firstUnmatched?_eq_none_iff {program : Program} :
    (ofProgram program).firstUnmatched? = none ↔ ∀ u, ¬ program.Partnerless u := by
  rw [firstUnmatched?, List.head?_eq_none_iff, List.eq_nil_iff_forall_not_mem]
  exact forall_congr' fun u => not_congr mem_unmatched_iff

/-! ## Looking partners up -/

theorem closeOf_eq_ok_iff {program : Program} {i j : Nat} :
    (ofProgram program).closeOf i = .ok j ↔ program.Closes i j := by
  have htable := (Pairing.covers_visitAll program).closeTable i j
  constructor
  · intro h
    exact (htable.mp (lookup_eq_ok_iff.mp h)).1
  · intro h
    exact lookup_eq_ok_iff.mpr (htable.mpr ⟨h, h.lt_length⟩)

theorem openOf_eq_ok_iff {program : Program} {i j : Nat} :
    (ofProgram program).openOf j = .ok i ↔ program.Closes i j := by
  have htable := (Pairing.covers_visitAll program).openTable i j
  constructor
  · intro h
    exact (htable.mp (lookup_eq_ok_iff.mp h)).1
  · intro h
    exact lookup_eq_ok_iff.mpr (htable.mpr ⟨h, h.lt_length⟩)

theorem closeOf_eq_error_iff {program : Program} {i : Nat} :
    (ofProgram program).closeOf i = .error ⟨i, .opening⟩ ↔ ∀ j, ¬ program.Closes i j := by
  rw [closeOf, lookup_eq_error_iff]
  exact forall_congr' fun j => not_congr closeOf_eq_ok_iff

theorem openOf_eq_error_iff {program : Program} {j : Nat} :
    (ofProgram program).openOf j = .error ⟨j, .closing⟩ ↔ ∀ i, ¬ program.Closes i j := by
  rw [openOf, lookup_eq_error_iff]
  exact forall_congr' fun i => not_congr openOf_eq_ok_iff

/-- **The one-pass tables agree with the depth.**  For every program and every position, a bracket
    is looked up with success exactly if there is a position at which the depth counted from it
    comes back to 0, and the first such position is what is found; the other table is the inverse
    of this one.  Every other look-up fails, and the error names the position that was asked for
    and the side. -/
theorem partners_eq_depth_scan (program : Program) :
    (∀ i j, (ofProgram program).closeOf i = .ok j ↔ program.Closes i j)
      ∧ (∀ i, (ofProgram program).closeOf i = .error ⟨i, .opening⟩
          ↔ ∀ j, ¬ program.Closes i j)
      ∧ (∀ i j, (ofProgram program).openOf j = .ok i ↔ (ofProgram program).closeOf i = .ok j)
      ∧ (∀ j, (ofProgram program).openOf j = .error ⟨j, .closing⟩
          ↔ ∀ i, (ofProgram program).closeOf i ≠ .ok j) := by
  refine ⟨fun i j => closeOf_eq_ok_iff, fun i => closeOf_eq_error_iff, fun i j => ?_, fun j => ?_⟩
  · rw [openOf_eq_ok_iff, closeOf_eq_ok_iff]
  · rw [openOf_eq_error_iff]
    exact forall_congr' fun i => not_congr closeOf_eq_ok_iff.symm

end Loops

end Brainfuck
