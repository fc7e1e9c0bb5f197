/-
  Layout: where the blocks of a structured program stand in the flat one.

  `Block.Laid code block p stop` says that `block` occupies the positions from `p` up to `stop`:
  its instructions are there, and for every bracket the table says what the tree says.  The rest
  of the theory of structured programs looks at the code through this relation alone.

  The blocks of a program are laid in its code (`laid_ofText`).  Decomposing goes by cutting
  pieces out of the program, so the induction speaks of a SEGMENT: a piece which no pair of
  brackets enters or leaves.  The whole program is one; and the body of a loop in a segment and
  what follows the loop are segments again, because pairs do not cross.
-/
import Brainfuck.Structured
import Brainfuck.Proofs.Pairing

namespace Brainfuck

/-! ## Segments -/

namespace Program

variable {program segment ahead : Program} {i : Instruction} {p q n : Nat}

/-- A piece of a program that stands at `p`, and such that a bracket in it has its partner in
    it. -/
structure Segment (program : Program) (p : Nat) (segment : Program) : Prop where
  words : ∃ behind, program.drop p = segment ++ behind
  closed : ∀ i j, program.Closes i j →
    (p ≤ i ∧ i < p + segment.length ↔ p ≤ j ∧ j < p + segment.length)

/-- The whole program. -/
theorem segment_self (program : Program) : program.Segment 0 program where
  words := ⟨[], by rw [List.drop_zero, List.append_nil]⟩
  closed i j h := by
    have hlt := h.lt
    have hlength := h.lt_length
    omega

theorem Segment.getElem?_eq (h : program.Segment p (i :: ahead)) : program[p]? = some i := by
  obtain ⟨behind, hbehind⟩ := h.words
  rw [← List.head?_drop, hbehind]
  rfl

theorem Segment.drop_succ (h : program.Segment p (i :: ahead)) :
    ∃ behind, program.drop (p + 1) = ahead ++ behind := by
  obtain ⟨behind, hbehind⟩ := h.words
  refine ⟨behind, ?_⟩
  rw [← List.drop_drop, hbehind]
  rfl

/-- Behind an instruction that has no partner. -/
theorem Segment.tail (h : program.Segment p (i :: ahead)) (hopening : ∀ j, ¬ program.Closes p j)
    (hclosing : ∀ j, ¬ program.Closes j p) : program.Segment (p + 1) ahead where
  words := h.drop_succ
  closed i j hij := by
    have hclosed := h.closed i j hij
    rw [List.length_cons] at hclosed
    have hi : i ≠ p := by
      rintro rfl
      exact hopening j hij
    have hj : j ≠ p := by
      rintro rfl
      exact hclosing i hij
    omega

/-- What opens a loop in a segment, and what closes it. -/
theorem Segment.closes (h : program.Segment p (.loopOpen :: ahead))
    (hscan : backToZero? 1 ahead = some n) : program.Closes p (p + n) ∧ n ≤ ahead.length := by
  obtain ⟨behind, hbehind⟩ := h.words
  have hn : n ≤ ahead.length := (backToZero?_eq_some_iff.mp hscan).2.1
  exact ⟨(closes_iff_backToZero? hbehind hn).mpr hscan, hn⟩

/-- A `[` whose partner is not in the segment has none. -/
theorem Segment.not_closes (h : program.Segment p (.loopOpen :: ahead))
    (hscan : backToZero? 1 ahead = none) (j : Nat) : ¬ program.Closes p j := by
  intro hj
  obtain ⟨behind, hbehind⟩ := h.words
  have hclosed := (h.closed p j hj).mp ⟨Nat.le_refl p, by rw [List.length_cons]; omega⟩
  rw [List.length_cons] at hclosed
  obtain ⟨n, rfl⟩ := Nat.exists_eq_add_of_le hclosed.1
  have hfound := (closes_iff_backToZero? hbehind (by omega)).mp hj
  rw [hscan] at hfound
  cases hfound

/-- A `]` at the front of a segment has no partner: it would be in front of the segment. -/
theorem Segment.not_closes_front (h : program.Segment p (i :: ahead)) (j : Nat) :
    ¬ program.Closes j p := by
  intro hj
  have hlt := hj.lt
  have hclosed := (h.closed j p hj).mpr ⟨Nat.le_refl p, by rw [List.length_cons]; omega⟩
  omega

/-- The body of a loop. -/
theorem Segment.body (h : program.Segment p (i :: ahead)) (hcloses : program.Closes p (p + n))
    (hn : n ≤ ahead.length) : program.Segment (p + 1) (ahead.take (n - 1)) where
  words := by
    obtain ⟨behind, hbehind⟩ := h.drop_succ
    refine ⟨ahead.drop (n - 1) ++ behind, ?_⟩
    rw [hbehind, ← List.append_assoc, List.take_append_drop]
  closed i j hij := by
    have hpos := hcloses.lt
    have hlt := hij.lt
    rw [List.length_take, Nat.min_eq_left (by omega)]
    constructor
    · rintro ⟨hpi, hin⟩
      have hjn := hcloses.inner_lt hij (by omega) (by omega)
      omega
    · rintro ⟨hpj, hjn⟩
      have hpi := hcloses.lt_inner hij (by omega) (by omega)
      omega

/-- What follows a loop. -/
theorem Segment.behind (h : program.Segment p (i :: ahead)) (hcloses : program.Closes p (p + n))
    (hn : n ≤ ahead.length) : program.Segment (p + n + 1) (ahead.drop n) where
  words := by
    obtain ⟨behind, hbehind⟩ := h.drop_succ
    refine ⟨behind, ?_⟩
    rw [Nat.add_right_comm, ← List.drop_drop, hbehind, List.drop_append_of_le_length hn]
  closed i j hij := by
    have hclosed := h.closed i j hij
    have hlt := hij.lt
    rw [List.length_cons] at hclosed
    rw [List.length_drop]
    constructor
    · rintro ⟨hpi, hin⟩
      omega
    · rintro ⟨hpj, hjn⟩
      -- The partner is no part of the loop: its pair would be the loop's, or cross it.
      have hi : i ≠ p := by
        rintro rfl
        have := hcloses.right_unique hij
        omega
      have hin : i ≠ p + n := by
        rintro rfl
        have hopening := hij.opening
        rw [hcloses.closing] at hopening
        cases hopening
      have hinner : ¬ (p < i ∧ i < p + n) := by
        rintro ⟨hpi, hi⟩
        have := hcloses.inner_lt hij hpi hi
        omega
      omega

end Program

/-! ## Blocks in code -/

namespace Block

/-- `block` stands in the code, at the positions from `p` up to `stop`. -/
inductive Laid (code : Code) : Block → Nat → Nat → Prop
  | done {p : Nat} : Laid code done p p
  | simple {p stop : Nat} {i : Instruction} {rest : Block} (hi : code.program[p]? = some i)
      (hplain : i.nesting = 0) (hrest : Laid code rest (p + 1) stop) :
      Laid code (.simple p i rest) p stop
  /-- The brackets of a loop are partners, and the body is between them. -/
  | loop {p q stop : Nat} {body rest : Block} (hopening : code.program[p]? = some .loopOpen)
      (hclosing : code.program[q]? = some .loopClose) (hcloseOf : code.loops.closeOf p = .ok q)
      (hopenOf : code.loops.openOf q = .ok p) (hbody : Laid code body (p + 1) q)
      (hrest : Laid code rest (q + 1) stop) :
      Laid code (.loop p body rest) p stop
  | stray {p stop : Nat} {rest : Block} (hclosing : code.program[p]? = some .loopClose)
      (hopenOf : code.loops.openOf p = .error ⟨p, .closing⟩)
      (hrest : Laid code rest (p + 1) stop) :
      Laid code (.stray p rest) p stop
  | unclosed {p stop : Nat} {rest : Block} (hopening : code.program[p]? = some .loopOpen)
      (hcloseOf : code.loops.closeOf p = .error ⟨p, .opening⟩)
      (hrest : Laid code rest (p + 1) stop) :
      Laid code (.unclosed p rest) p stop

/-- The blocks of a segment are laid where it stands. -/
theorem laid_ofProgram {program segment : Program} {p : Nat} (h : program.Segment p segment) :
    Laid (Code.ofProgram program) (ofProgram p segment) p (p + segment.length) := by
  induction p, segment using ofProgram.induct with
  | case1 p =>
    rw [ofProgram]
    exact .done
  | case2 p ahead n hscan ihbody ihrest =>
    obtain ⟨hcloses, hn⟩ := h.closes hscan
    have hpos := hcloses.lt
    have hbody := ihbody (h.body hcloses hn)
    have hrest := ihrest (h.behind hcloses hn)
    rw [List.length_take, Nat.min_eq_left (by omega), show p + 1 + (n - 1) = p + n by omega]
      at hbody
    rw [List.length_drop, show p + n + 1 + (ahead.length - n) = p + (ahead.length + 1) by omega]
      at hrest
    rw [ofProgram, hscan, List.length_cons]
    refine .loop ?_ ?_ (Loops.closeOf_eq_ok_iff.mpr hcloses) (Loops.openOf_eq_ok_iff.mpr hcloses)
      hbody hrest
    · rw [Code.ofProgram, List.getElem?_toArray]
      exact hcloses.opening
    · rw [Code.ofProgram, List.getElem?_toArray]
      exact hcloses.closing
  | case3 p ahead hscan ih =>
    have hnot := h.not_closes hscan
    have hrest := ih (h.tail hnot h.not_closes_front)
    rw [ofProgram, hscan, List.length_cons, Nat.add_comm ahead.length, ← Nat.add_assoc]
    refine .unclosed ?_ (Loops.closeOf_eq_error_iff.mpr hnot) hrest
    rw [Code.ofProgram, List.getElem?_toArray]
    exact h.getElem?_eq
  | case4 p ahead ih =>
    have hnot (j : Nat) : ¬ program.Closes p j := by
      intro hj
      have hopening := hj.opening
      rw [h.getElem?_eq] at hopening
      cases hopening
    have hrest := ih (h.tail hnot h.not_closes_front)
    rw [ofProgram, List.length_cons, Nat.add_comm ahead.length, ← Nat.add_assoc]
    refine .stray ?_ (Loops.openOf_eq_error_iff.mpr h.not_closes_front) hrest
    rw [Code.ofProgram, List.getElem?_toArray]
    exact h.getElem?_eq
  | case5 p i ahead hopen hclose ih =>
    have hnot (j : Nat) : ¬ program.Closes p j := by
      intro hj
      have hopening := hj.opening
      rw [h.getElem?_eq] at hopening
      exact hopen (Option.some.inj hopening)
    have hrest := ih (h.tail hnot h.not_closes_front)
    rw [ofProgram, List.length_cons, Nat.add_comm ahead.length, ← Nat.add_assoc]
    · refine .simple ?_ ?_ hrest
      · rw [Code.ofProgram, List.getElem?_toArray]
        exact h.getElem?_eq
      · cases i with
        | loopOpen => exact absurd rfl hopen
        | loopClose => exact absurd rfl hclose
        | _ => rfl
    · exact hopen
    · exact hclose

/-- **The blocks of a text are laid in its code**, from the first position to the end. -/
theorem laid_ofText (text : String) :
    Laid (Code.ofText text) (ofProgram 0 (Program.ofText text)) 0 (Code.ofText text).size := by
  have hlaid := laid_ofProgram (Program.ofText text).segment_self
  rw [Nat.zero_add] at hlaid
  exact hlaid

end Block

end Brainfuck
