/-
  Laps: between two jumps back a program is gone through at most once, from left to right.

  The pointer goes both ways, so it measures nothing by itself.  But it goes back in ONE place only,
  at a `]` whose cell is not zero (`State.JumpsBack`); every other instruction that succeeds leads to
  the right, a skipped loop included, because the partner of a `[` is to the right of it
  (`Advances.ip_lt_iff`).  A jump back costs at most the whole program.  So if every jump back is
  paid for with the length of the program, each instruction is paid for:

      instructions + first position  ≤  last position + jumps back * length

  This is kept by one instruction more, and needs no word about where a lap begins
  (`Trail.length_add_ip_le`).  From the beginning of a program it says that the instructions are at
  most as many as the laps have room for (`Trail.length_le`).

  A call whose instructions are bounded is over soon, for a turn that does not end it is an
  instruction that succeeds (`Engine.exists_ended_of_length_lt`).
-/
import Brainfuck.Proofs.Enclosure
import Brainfuck.Proofs.WellFormed

namespace Brainfuck

variable {α : Type} [Cell α] {ω : Type} {code : Code} {s t : State α} {states : List (State α)}

/-! ## One instruction -/

/-- Under the pointer is a `]` that is to jump back. -/
def State.JumpsBack (code : Code) (s : State α) : Prop :=
  code.program[s.ip]? = some .loopClose ∧ s.tape.value ≠ 0

instance (code : Code) (s : State α) : Decidable (s.JumpsBack code) :=
  inferInstanceAs (Decidable (_ ∧ _))

/-- **Only a jump back does not lead to the right.** -/
theorem Advances.ip_lt_iff (h : Advances code s t) : s.ip < t.ip ↔ ¬ s.JumpsBack code := by
  -- A place that holds another instruction is no `]`.
  have hother {i : Instruction} (hi : code.program[s.ip]? = some i) (hne : i ≠ .loopClose) :
      ¬ s.JumpsBack code := by
    intro hjumps
    exact hne (Option.some.inj (hi.symm.trans hjumps.1))
  cases h with
  | right hi => exact iff_of_true (Nat.lt_succ_self _) (hother hi (by decide))
  | left hi _ => exact iff_of_true (Nat.lt_succ_self _) (hother hi (by decide))
  | increment hi => exact iff_of_true (Nat.lt_succ_self _) (hother hi (by decide))
  | decrement hi => exact iff_of_true (Nat.lt_succ_self _) (hother hi (by decide))
  | output hi => exact iff_of_true (Nat.lt_succ_self _) (hother hi (by decide))
  | input _ hi => exact iff_of_true (Nat.lt_succ_self _) (hother hi (by decide))
  | enter hi _ => exact iff_of_true (Nat.lt_succ_self _) (hother hi (by decide))
  | @skip partner hi _ hpartner =>
    rw [code.loops_eq, Loops.closeOf_eq_ok_iff] at hpartner
    have hlt := hpartner.lt
    refine iff_of_true ?_ (hother hi (by decide))
    show s.ip < partner + 1
    omega
  | leave _ hzero => exact iff_of_true (Nat.lt_succ_self _) fun hjumps => hjumps.2 hzero
  | @again partner hi hvalue hpartner =>
    rw [code.loops_eq, Loops.openOf_eq_ok_iff] at hpartner
    have hlt := hpartner.lt
    refine iff_of_false ?_ (not_not_intro ⟨hi, hvalue⟩)
    show ¬ s.ip < partner + 1
    omega

/-! ## Trails -/

/-- How often a machine with this past has jumped back.  The last state is left out: its instruction
    has not been executed yet. -/
def jumpsBack (code : Code) (past : List (State α)) : Nat :=
  past.dropLast.countP fun s => s.JumpsBack code

theorem jumpsBack_cons_cons (code : Code) (s next : State α) (states : List (State α)) :
    jumpsBack code (s :: next :: states)
      = jumpsBack code (next :: states) + if s.JumpsBack code then 1 else 0 := by
  rw [jumpsBack, List.dropLast_cons_cons, List.countP_cons]
  simp [jumpsBack]

/-- **Every instruction is paid for**, by a place further right or by a jump back. -/
theorem Trail.length_add_ip_le (h : Trail code s states t) :
    states.length + s.ip ≤ t.ip + jumpsBack code (s :: states) * code.size := by
  induction h with
  | nil => simp
  | @cons s next t states hadvances _ ih =>
    rw [jumpsBack_cons_cons, List.length_cons, Nat.add_mul]
    by_cases hjumps : s.JumpsBack code
    · have hlt := hadvances.ip_lt
      rw [if_pos hjumps]
      omega
    · have hlt := hadvances.ip_lt_iff.mpr hjumps
      rw [if_neg hjumps]
      omega

theorem Trail.length_le (h : Trail code s states t) (hs : s.ip = 0) :
    states.length ≤ (jumpsBack code (s :: states) + 1) * code.size := by
  have hpaid := h.length_add_ip_le
  have hend := h.ip_le (by omega)
  rw [Nat.add_mul, Nat.one_mul]
  omega

/-- Where there is no `]`, nothing jumps back. -/
theorem jumpsBack_eq_zero (hnone : Instruction.loopClose ∉ code.program.toList)
    (past : List (State α)) : jumpsBack code past = 0 := by
  rw [jumpsBack, List.countP_eq_zero]
  intro s _ hjumps
  have hjumps : s.JumpsBack code := of_decide_eq_true hjumps
  exact hnone (Array.mem_toList_iff.mpr (Array.mem_of_getElem? hjumps.1))

/-! ## Calls -/

section Calls

variable {engine : Engine α ω} {control : Control ω} {first : Run α ω} {turns : Nat}

omit [Cell α] in
/-- What a call counts are the states it passes. -/
theorem Engine.steps_point (engine : Engine α ω) (control : Control ω) (turns : Nat)
    (first : Run α ω) :
    (engine.run control turns first).point.steps
      = first.steps + (engine.passed control turns first).length := by
  induction turns generalizing first with
  | zero => rfl
  | succ turns ih =>
    rw [Engine.run, Engine.passed]
    have hturn := engine.turn_tick control first
    generalize engine.tick control first = progress at hturn ⊢
    cases hturn with
    | succeeded _ _ _ =>
      show (engine.run control turns _).point.steps = _
      rw [ih, List.length_cons]
      show first.steps + 1 + _ = _
      omega
    | failed _ _ _ => rfl
    | finished _ _ => rfl
    | canceled _ _ => rfl
    | limited _ _ _ _ => rfl

omit [Cell α] in
/-- **A call that has had more turns than instructions is over.** -/
theorem Engine.exists_ended_of_length_lt
    (h : (engine.passed control turns first).length < turns) :
    ∃ result last, engine.run control turns first = .ended result last
      ∧ last.steps = first.steps + (engine.passed control turns first).length := by
  have hsteps := engine.steps_point control turns first
  cases hrun : engine.run control turns first with
  | running last =>
    rw [hrun] at hsteps
    have hsteps : last.steps = _ := hsteps
    have hturns := (Engine.run_free_of_run hrun).2
    omega
  | ended result last =>
    rw [hrun] at hsteps
    exact ⟨result, last, rfl, hsteps⟩

/-- What is certain of a call, whatever is in its way. -/
structure Engine.Laps (engine : Engine α ω) (control : Control ω) (first : Run α ω) : Prop where
  /-- With every jump back there is room for one more lap. -/
  bounded : ∀ turns, (engine.passed control turns first).length
    ≤ (jumpsBack engine.code (first.state :: engine.passed control turns first) + 1)
      * engine.code.size
  /-- If it jumps back so often and no more, it ends, and within that room. -/
  ends : ∀ jumps,
    (∀ turns, jumpsBack engine.code (first.state :: engine.passed control turns first) ≤ jumps) →
    ∃ result last, engine.run control ((jumps + 1) * engine.code.size + 1) first
        = .ended result last
      ∧ last.steps ≤ (jumps + 1) * engine.code.size
  /-- Without a `]` there is one lap. -/
  straight : Instruction.loopClose ∉ engine.code.program.toList →
    ∃ result last, engine.run control (engine.code.size + 1) first = .ended result last
      ∧ last.steps ≤ engine.code.size

theorem Engine.Lawful.laps (lawful : engine.Lawful) (control : Control ω)
    (hip : first.state.ip = 0) (hsteps : first.steps = 0) : engine.Laps control first := by
  have hbounded (turns : Nat) := (lawful.trail control turns first).length_le hip
  have hends (jumps : Nat) (hjumps : ∀ turns,
      jumpsBack engine.code (first.state :: engine.passed control turns first) ≤ jumps) :
      ∃ result last, engine.run control ((jumps + 1) * engine.code.size + 1) first
          = .ended result last
        ∧ last.steps ≤ (jumps + 1) * engine.code.size := by
    have hroom (turns : Nat) :
        (engine.passed control turns first).length ≤ (jumps + 1) * engine.code.size :=
      calc (engine.passed control turns first).length
          ≤ (jumpsBack engine.code (first.state :: engine.passed control turns first) + 1)
            * engine.code.size := hbounded turns
        _ ≤ (jumps + 1) * engine.code.size :=
          Nat.mul_le_mul_right _ (Nat.succ_le_succ (hjumps turns))
    obtain ⟨result, last, hrun, hlast⟩ :=
      Engine.exists_ended_of_length_lt (Nat.lt_succ_of_le (hroom _))
    refine ⟨result, last, hrun, ?_⟩
    rw [hlast, hsteps, Nat.zero_add]
    exact hroom _
  refine ⟨hbounded, hends, ?_⟩
  intro hnone
  have hone := hends 0 fun turns => Nat.le_of_eq (jumpsBack_eq_zero hnone _)
  rw [Nat.zero_add, Nat.one_mul] at hone
  exact hone

end Calls

/-- **Runs make progress.**  Whatever the program, an instruction that succeeds leads to the right,
    or else it is a `]` that jumps back.  From the beginning of the program, in a real run with any
    host and in a rehearsal, under any limit and flag: the instructions that have succeeded are at
    most as many as the program has, times the jumps back and one.  So a call that does not jump back
    for ever ends, within that bound, and a program without a `]` ends within its own length.

    The bound is also that of a whole life, of calls of any kind, with one that may still be going
    on. -/
theorem runs_make_progress (code : Code) :
    (∀ s t : State α, Executes code s t → (s.ip < t.ip ↔ ¬ s.JumpsBack code))
    ∧ (∀ (σ : Type) (host : Host σ) (control : Control σ) (w : σ),
      (Engine.real host code).Laps control (Run.start (State.initial : State α) w))
    ∧ (∀ (ω : Type) (log : Row → ω → ω) (control : Control ω) (w : ω),
      (Engine.rehearsal log code).Laps control (Run.start (State.initial : State α) w))
    ∧ ∀ (console : Console) (events : List Event) (passed : List (State α)) (session : Session α),
      ({ code, console } : Session α).Lives events passed session →
      ∀ (turns : Nat) (c : Call), (passed ++ session.passed turns c).length
        ≤ (jumpsBack code (State.initial :: (passed ++ session.passed turns c)) + 1)
          * code.size := by
  refine ⟨?_, ?_, ?_, ?_⟩
  · intro s t hexecutes
    exact (executes_iff_advances.mp hexecutes).ip_lt_iff
  · intro σ host control w
    exact (Engine.real_lawful host code).laps control rfl rfl
  · intro ω log control w
    exact (Engine.rehearsal_lawful log code).laps control rfl rfl
  · intro console events passed session h turns c
    have htrail := session.trail_reached turns c
    rw [h.code_eq] at htrail
    exact (h.trail.append htrail).length_le rfl

/-- Two is counted down with one jump back, which there is no more than one of in any number of turns;
    so there are two laps.  And a program that has a `[` only is over within two instructions. -/
theorem counting_down_takes_two_laps :
    ((Executes (Code.ofText "++[-]") ({ tape := Tape.blank.increment, ip := 4 } : State Word)
          { tape := Tape.blank.increment, ip := 3 })
        ∧ ({ tape := Tape.blank.increment, ip := 4 } : State Word).JumpsBack (Code.ofText "++[-]"))
      ∧ (∃ result last, (Engine.real Console.host (Code.ofText "++[-]")).run .free 11
          (Run.start (State.initial : State Word) { collecting := true }) = .ended result last
        ∧ last.steps ≤ 10)
      ∧ (∃ result last, (Engine.rehearsal List.cons (Code.ofText ",[")).run .free 3
          (Run.start (State.initial : State Word) []) = .ended result last
        ∧ last.steps ≤ 2)
      ∧ 7 ≤ (jumpsBack (Code.ofText "++[-]") (State.initial ::
          (({ code := Code.ofText "++[-]" } : Session).passed 8 (.run {}))) + 1) * 5 := by
  obtain ⟨hstep, hreal, -, hlife⟩ := runs_make_progress (α := Word) (Code.ofText "++[-]")
  obtain ⟨-, -, hrehearsal, -⟩ := runs_make_progress (α := Word) (Code.ofText ",[")
  have hback : Executes (Code.ofText "++[-]")
      ({ tape := Tape.blank.increment, ip := 4 } : State Word)
      { tape := Tape.blank.increment, ip := 3 } := .rehearsed (by decide) rfl
  refine ⟨⟨hback, ?_⟩, ?_, ?_, ?_⟩
  · apply Decidable.byContradiction
    intro hnot
    exact absurd ((hstep _ _ hback).mpr hnot) (by decide)
  · refine (hreal _ Console.host .free { collecting := true }).ends 1 ?_
    intro turns
    match turns with
    | 0 | 1 | 2 | 3 | 4 | 5 | 6 | 7 => decide
    | n + 8 => exact Nat.le_refl 1
  · exact (hrehearsal _ List.cons .free []).straight (by decide)
  · exact hlife {} [] [] _ .fresh 8 (.run {})

end Brainfuck
