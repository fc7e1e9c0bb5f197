/-
  Strictness: what checking the brackets beforehand is good for.

  A bracket without a partner is EXPOSED, it lies inside no pair (`Partnerless.exposed`): a stray
  `]` inside a pair would have closed something, and an open `[` inside it would have kept the pair
  from being closed.  Jumps go from one bracket of a pair to the other, so none of them crosses an
  exposed place backwards:

  1. A machine that stands at an exposed place, or beyond it, is beyond it after the next
     instruction and for the rest of its life (`Advances.beyond`, `Trail.beyond`).  So what stands
     there is executed at most once (`Trail.timesExecuted_le_one`).
  2. A fault of the program comes from a stuck machine, and there are three ways to be stuck
     (`stuck_iff_defect`): two of them are to stand on a bracket without a partner
     (`partnerless_of_stuck`).

  A program that passes the check has no such bracket, so it never comes to such a fault; and the
  check is all that strict loading adds.
-/
import Brainfuck.Proofs.Pairs
import Brainfuck.Proofs.Permanence

namespace Brainfuck

namespace Program

variable {program : Program} {i j : Nat} {u : Unmatched}

/-! ## Exposed places -/

/-- Inside no pair, and no bracket of one. -/
def Exposed (program : Program) (j : Nat) : Prop :=
  ∀ opening close, program.Closes opening close → j < opening ∨ close < j

/-- From the opening bracket of a pair to its closing one the level does not fall below that of
    the pair. -/
theorem Closes.level_le {p q : Nat} (h : program.Closes p q) (hpj : p ≤ j) (hjq : j ≤ q) :
    program.level p ≤ program.level (j + 1) := by
  rcases Nat.lt_or_eq_of_le hjq with hlt | rfl
  · exact Int.le_of_lt (h.openAt.above (j + 1) (Nat.lt_succ_of_le hpj) hlt)
  · exact Int.le_of_eq h.level_eq.symm

theorem Stray.exposed (h : program.Stray j) : program.Exposed j := by
  intro p q hcloses
  apply Decidable.byContradiction
  intro hinside
  have hbelow : program.level (j + 1) < program.level p := h.level_lt (by omega)
  have habove := hcloses.level_le (j := j) (by omega) (by omega)
  omega

/-- What is open at the end is inside no pair. -/
theorem OpenAt.exposed (h : program.OpenAt program.length i) : program.Exposed i := by
  intro p q hcloses
  apply Decidable.byContradiction
  intro hinside
  have hend : program.level i < program.level (q + 1) :=
    h.above (q + 1) (by omega) hcloses.lt_length
  rw [hcloses.level_eq] at hend
  -- The pair comes back to its level, and that is below the bracket's own.
  rcases Nat.lt_or_ge p i with hlt | hge
  · have habove := hcloses.openAt.above i hlt (by omega)
    omega
  · obtain rfl : p = i := by omega
    exact Int.lt_irrefl _ hend

theorem Partnerless.exposed (h : program.Partnerless u) : program.Exposed u.index := by
  cases h with
  | stray h => exact h.exposed
  | unclosed h => exact h.exposed

end Program

variable {α : Type} [Cell α] {code : Code} {s t : State α} {states : List (State α)} {j : Nat}

/-! ## Executed at most once -/

/-- **No instruction leads back to an exposed place.** -/
theorem Advances.beyond (h : Advances code s t) (hexposed : Program.Exposed code.program.toList j)
    (hj : j ≤ s.ip) : j < t.ip := by
  cases h with
  | skip _ _ hpartner =>
    rw [code.loops_eq, Loops.closeOf_eq_ok_iff] at hpartner
    have hlt := hpartner.lt
    show j < _ + 1
    omega
  | again _ _ hpartner =>
    rw [code.loops_eq, Loops.openOf_eq_ok_iff] at hpartner
    have houtside := hexposed _ _ hpartner
    show j < _ + 1
    omega
  | _ => exact Nat.lt_succ_of_le hj

theorem Trail.beyond (h : Trail code s states t)
    (hexposed : Program.Exposed code.program.toList j) (hj : j ≤ s.ip) :
    ∀ u ∈ states, j < u.ip := by
  induction h with
  | nil =>
    intro u hu
    cases hu
  | cons hadvances _ ih =>
    have hnext := hadvances.beyond hexposed hj
    intro u hu
    rcases List.mem_cons.mp hu with rfl | hu
    · exact hnext
    · exact ih (Nat.le_of_lt hnext) u hu

/-- How often the instruction at `j` has been executed with success by a machine with this past:
    how often the machine has left that place. -/
def timesExecuted (past : List (State α)) (j : Nat) : Nat :=
  past.dropLast.countP fun s => s.ip = j

/-- **What stands at an exposed place is executed at most once.** -/
theorem Trail.timesExecuted_le_one (h : Trail code s states t)
    (hexposed : Program.Exposed code.program.toList j) : timesExecuted (s :: states) j ≤ 1 := by
  induction h with
  | nil => exact Nat.zero_le 1
  | @cons s next _ states hadvances hrest ih =>
    have hcount : timesExecuted (s :: next :: states) j
        = timesExecuted (next :: states) j + if s.ip = j then 1 else 0 := by
      rw [timesExecuted, List.dropLast_cons_cons, List.countP_cons]
      simp [timesExecuted]
    by_cases hs : s.ip = j
    · -- It is left behind now, and nothing leads back.
      have hnext := hadvances.beyond hexposed (Nat.le_of_eq hs.symm)
      have hbeyond := hrest.beyond hexposed (Nat.le_of_lt hnext)
      have hnone : timesExecuted (next :: states) j = 0 := by
        rw [timesExecuted, List.countP_eq_zero]
        intro u hu
        have hlt : j < u.ip := by
          rcases List.mem_cons.mp (List.dropLast_subset _ hu) with rfl | hu
          · exact hnext
          · exact hbeyond u hu
        simp
        omega
      have hone : timesExecuted (s :: next :: states) j = 1 := by
        rw [hcount, hnone, if_pos hs]
      exact Nat.le_of_eq hone
    · rw [hcount, if_neg hs]
      exact ih

/-! ## Faults of the program -/

namespace Code

variable {i j : Nat} {u : Unmatched}

theorem closeOf_eq_error_iff :
    code.loops.closeOf i = .error u
      ↔ u = ⟨i, .opening⟩ ∧ ∀ j, ¬ Program.Closes code.program.toList i j := by
  rw [code.loops_eq, ← Loops.closeOf_eq_error_iff]
  constructor
  · intro h
    obtain rfl := Loops.eq_of_lookup_eq_error h
    exact ⟨rfl, h⟩
  · rintro ⟨rfl, h⟩
    exact h

theorem openOf_eq_error_iff :
    code.loops.openOf j = .error u
      ↔ u = ⟨j, .closing⟩ ∧ ∀ i, ¬ Program.Closes code.program.toList i j := by
  rw [code.loops_eq, ← Loops.openOf_eq_error_iff]
  constructor
  · intro h
    obtain rfl := Loops.eq_of_lookup_eq_error h
    exact ⟨rfl, h⟩
  · rintro ⟨rfl, h⟩
    exact h

end Code

/-- What is wrong with the instruction under the pointer, in this state. -/
inductive State.Defect (code : Code) (s : State α) : Fault → Prop
  | underflow (hi : code.program[s.ip]? = some .left) (hpointer : s.tape.pointer = 0) :
      Defect code s (.underflow s.ip)
  | unclosed (hi : code.program[s.ip]? = some .loopOpen)
      (hpartner : ∀ j, ¬ Program.Closes code.program.toList s.ip j) (hzero : s.tape.value = 0) :
      Defect code s (.unmatched s.ip .opening)
  | stray (hi : code.program[s.ip]? = some .loopClose)
      (hpartner : ∀ i, ¬ Program.Closes code.program.toList i s.ip) (hvalue : s.tape.value ≠ 0) :
      Defect code s (.unmatched s.ip .closing)

/-- **A machine is stuck exactly if there is something wrong with its instruction.** -/
theorem stuck_iff_defect {fault : Fault} : s.Stuck code fault ↔ s.Defect code fault := by
  constructor
  · rintro ⟨i, hi, heffect⟩
    cases i with
    | left =>
      rw [effect] at heffect
      split at heffect
      · cases heffect
      · next hleft =>
        obtain ⟨rfl, -⟩ := Effect.fault.inj heffect
        exact .underflow hi (Tape.moveLeft_eq_error_iff.mp hleft)
    | loopOpen =>
      rw [effect] at heffect
      split at heffect
      · next hzero =>
        split at heffect
        · cases heffect
        · next hlookup =>
          obtain ⟨rfl, -⟩ := Effect.fault.inj heffect
          obtain ⟨rfl, hpartner⟩ := Code.closeOf_eq_error_iff.mp hlookup
          exact .unclosed hi hpartner hzero
      · cases heffect
    | loopClose =>
      rw [effect] at heffect
      split at heffect
      · next hvalue =>
        split at heffect
        · cases heffect
        · next hlookup =>
          obtain ⟨rfl, -⟩ := Effect.fault.inj heffect
          obtain ⟨rfl, hpartner⟩ := Code.openOf_eq_error_iff.mp hlookup
          exact .stray hi hpartner hvalue
      · cases heffect
    | right => cases heffect
    | increment => cases heffect
    | decrement => cases heffect
    | output => cases heffect
    | input => cases heffect
  · intro h
    cases h with
    | underflow hi hpointer =>
      refine ⟨_, hi, ?_⟩
      rw [effect, Tape.moveLeft_eq_error_iff.mpr hpointer]
    | unclosed hi hpartner hzero =>
      refine ⟨_, hi, ?_⟩
      rw [effect, if_pos hzero, Code.closeOf_eq_error_iff.mpr ⟨rfl, hpartner⟩]
      rfl
    | stray hi hpartner hvalue =>
      refine ⟨_, hi, ?_⟩
      rw [effect, if_pos hvalue, Code.openOf_eq_error_iff.mpr ⟨rfl, hpartner⟩]
      rfl

/-- **A machine that is stuck at a bracket stands on one without a partner**, and the fault names
    it. -/
theorem partnerless_of_stuck {ip : Nat} {side : Side} (h : s.Stuck code (.unmatched ip side)) :
    Program.Partnerless code.program.toList ⟨ip, side⟩ := by
  cases stuck_iff_defect.mp h with
  | unclosed hi hpartner _ =>
    rw [← Array.getElem?_toList] at hi
    exact .unclosed (Program.openAt_length hi hpartner)
  | stray hi hpartner _ =>
    rw [← Array.getElem?_toList] at hi
    exact .stray ⟨hi, hpartner⟩

/-! ## Strict and lenient sessions -/

namespace Code

variable {text : String}

/-- The instructions of loaded code are those of the text. -/
theorem program_ofText (text : String) : (ofText text).program.toList = Program.ofText text :=
  List.toList_toArray

/-- In a program that is accepted every bracket has a partner. -/
theorem not_partnerless_of_load (h : load text = .ok code) (u : Unmatched) :
    ¬ (Program.ofText text).Partnerless u := by
  obtain rfl := eq_ofText_of_load h
  have hnested : (Program.ofText text).WellNested :=
    Loops.validate_eq_ok_iff.mp (load_eq_ok_iff.mp h)
  exact Program.wellNested_iff_forall_not_partnerless.mp hnested u

/-- A program that is refused is blamed for the leftmost bracket without a partner. -/
theorem exists_leftmost_of_load {fault : Fault} (h : load text = .error fault) :
    ∃ first : Unmatched, fault = .unmatched first.index first.side
      ∧ ∀ u, (Program.ofText text).Partnerless u → first.index ≤ u.index := by
  obtain ⟨first, hvalidate, rfl⟩ := load_eq_error_iff.mp h
  have hblamed : (Program.ofText text).Blamed first := Loops.validate_eq_error_iff.mp hvalidate
  exact ⟨first, rfl, (Program.blamed_iff.mp hblamed).2⟩

end Code

namespace Session

variable {session next : Session α} {c : Call} {turns : Nat} {text : String} {console : Console}
  {events : List Event} {passed : List (State α)}

/-- A fault about a bracket that a session of this text comes to. -/
theorem Lives.partnerless_of_call {ip : Nat} {side : Side}
    (h : ({ code := Code.ofText text, console } : Session α).Lives events passed session)
    (hcall : session.call turns c = some (.error (.unmatched ip side), next)) :
    (Program.ofText text).Partnerless ⟨ip, side⟩ := by
  have hcode : next.code = Code.ofText text := (code_of_call hcall).trans h.code_eq
  have hpartnerless := partnerless_of_stuck (stuck_of_ends ⟨turns, hcall⟩ trivial)
  rw [hcode, Code.program_ofText] at hpartnerless
  exact hpartnerless

/-- **Strict loading rules out faults about brackets, and changes nothing else.**  A session of a
    text that is accepted lives exactly the lives of the session that was loaded without the check,
    and none of its calls ever ends with such a fault.

    If the text is refused, then a fault about a bracket that the lenient session comes to names a
    bracket without a partner, which is not to the left of the one that was blamed; and in the whole
    life of the session, with a call that may still be going on, every bracket without a partner is
    executed at most once. -/
theorem strict_sessions_have_no_bracket_faults (text : String) :
    (∀ code, Code.load text = .ok code → ∀ (console : Console) (events : List Event)
      (passed : List (State α)) (s : Session α),
      (({ code, console } : Session α).Lives events passed s
        ↔ ({ code := Code.ofText text, console } : Session α).Lives events passed s)
      ∧ (({ code, console } : Session α).Lives events passed s →
        ∀ (c : Call) (turns ip : Nat) (side : Side) (next : Session α),
          s.call turns c ≠ some (.error (.unmatched ip side), next)))
    ∧ ∀ fault, Code.load text = .error fault →
      ∃ first side, fault = .unmatched first side
        ∧ ∀ (console : Console) (events : List Event) (passed : List (State α)) (s : Session α),
          ({ code := Code.ofText text, console } : Session α).Lives events passed s →
          ∀ (c : Call) (turns : Nat),
            (∀ ip side next, s.call turns c = some (.error (.unmatched ip side), next) →
              (Program.ofText text).Partnerless ⟨ip, side⟩ ∧ first ≤ ip)
            ∧ ∀ u, (Program.ofText text).Partnerless u →
              timesExecuted (State.initial :: (passed ++ s.passed turns c)) u.index ≤ 1 := by
  constructor
  · intro code hload console events passed s
    obtain rfl := Code.eq_ofText_of_load hload
    refine ⟨Iff.rfl, ?_⟩
    intro h c turns ip side next hcall
    exact Code.not_partnerless_of_load hload _ (h.partnerless_of_call hcall)
  · intro fault hload
    obtain ⟨first, rfl, hleftmost⟩ := Code.exists_leftmost_of_load hload
    refine ⟨first.index, first.side, rfl, ?_⟩
    intro console events passed s h c turns
    constructor
    · intro ip side next hcall
      have hpartnerless := h.partnerless_of_call hcall
      exact ⟨hpartnerless, hleftmost _ hpartnerless⟩
    · intro u hu
      have htrail := s.trail_reached turns c
      rw [h.code_eq] at htrail
      apply (h.trail.append htrail).timesExecuted_le_one
      show Program.Exposed (Code.ofText text).program.toList u.index
      rw [Code.program_ofText]
      exact hu.exposed

/-- A stray `]` that is passed, and an open `[` behind it at which every run ends. -/
theorem run_to_open_bracket :
    (Program.ofText "x]+-[.").Partnerless ⟨3, .opening⟩
      ∧ timesExecuted
        [State.initial, { tape := (Tape.blank : Tape Word), ip := 1 },
          { tape := (Tape.blank : Tape Word).increment, ip := 2 },
          { tape := (Tape.blank : Tape Word).increment.decrement, ip := 3 }] 0 ≤ 1
      ∧ ∀ (ip : Nat) (side : Side) (next : Session),
        ({ code := Code.ofText "[+[-]]" } : Session).call 9 (.run {})
          ≠ some (.error (.unmatched ip side), next) := by
  have hrun : ({ code := Code.ofText "x]+-[." } : Session).call 9 (.run {})
      = some (.error (.unmatched 3 .opening),
        { code := Code.ofText "x]+-[.",
          state := { tape := Tape.blank.increment.decrement, ip := 3 } }) := rfl
  obtain ⟨-, hrefused⟩ := strict_sessions_have_no_bracket_faults (α := Word) "x]+-[."
  obtain ⟨_, _, -, hlenient⟩ := hrefused (.unmatched 0 .closing) rfl
  obtain ⟨hnamed, honce⟩ := hlenient {} _ _ _ .fresh (.run {}) 9
  obtain ⟨haccepted, -⟩ := strict_sessions_have_no_bracket_faults (α := Word) "[+[-]]"
  obtain ⟨-, hstrict⟩ := haccepted (Code.ofText "[+[-]]") rfl {} _ _ _
  refine ⟨(hnamed _ _ _ hrun).1, ?_, ?_⟩
  · exact honce ⟨0, .closing⟩ (Loops.mem_unmatched_iff.mp (by decide))
  · exact hstrict .fresh (.run {}) 9

end Session

end Brainfuck
