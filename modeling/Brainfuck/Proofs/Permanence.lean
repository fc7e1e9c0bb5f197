/-
  Permanence: a machine that has failed in its program fails so for ever.

  A fault of the PROGRAM — a move left of cell 0, a jump through a bracket without a partner — is
  decided by the state alone.  Where it is raised the machine is STUCK (`State.Stuck`): the fault
  is what the instruction wants, whoever carries it out.

  1. A stuck machine fails in every reader, and has no advance (`State.Stuck.not_advances`).
  2. A call that ends with a fault of the program leaves the machine stuck with this fault
     (`Session.stuck_of_ends`).  The other faults come from outside, and say nothing of the kind.
  3. A call of a stuck session does nothing but fail (`Session.call_of_stuck`), unless it is
     stopped before its first instruction.

  As a stuck machine stands still, all this holds for the rest of the session's life, whatever
  is done to the console in the meantime.
-/
import Brainfuck.Proofs.Advance

namespace Brainfuck

variable {α : Type} [Cell α] {σ ω : Type} {host : Host σ} {code : Code} {s t : State α}
  {fault : Fault}

/-- Faults that no other input, output, limit or flag would have avoided. -/
def Fault.OfProgram : Fault → Prop
  | .underflow _ | .unmatched _ _ => True
  | .io _ _ | .stepLimit _ | .canceled => False

/-- They belong to an instruction. -/
theorem Fault.OfProgram.exists_position (h : fault.OfProgram) :
    ∃ ip, fault.position? = some ip := by
  cases fault with
  | underflow ip => exact ⟨ip, rfl⟩
  | unmatched ip side => exact ⟨ip, rfl⟩
  | io _ _ => exact h.elim
  | stepLimit _ => exact h.elim
  | canceled => exact h.elim

/-- The instruction under the pointer wants to fail. -/
def State.Stuck (code : Code) (s : State α) (fault : Fault) : Prop :=
  ∃ i, code.program[s.ip]? = some i ∧ effect code s i = .fault fault s

/-! ## What a stuck machine does -/

namespace State.Stuck

theorem unfinished (h : s.Stuck code fault) : ¬ s.Finished code := by
  obtain ⟨i, hi, -⟩ := h
  exact Nat.not_le_of_lt (Array.getElem?_eq_some_iff.mp hi).1

theorem attempt_eq (h : s.Stuck code fault) (w : σ) :
    attempt host code s w = ⟨.error fault, s, w⟩ := by
  obtain ⟨i, hi, heffect⟩ := h
  rw [attempt, hi]
  show (effect code s i).perform host w = _
  rw [heffect]
  rfl

theorem rehearse_eq (h : s.Stuck code fault) : rehearse code s = (.error fault, s) := by
  obtain ⟨i, hi, heffect⟩ := h
  rw [rehearse, hi]
  show (effect code s i).suppress = _
  rw [heffect]
  rfl

/-- A stuck machine stands still. -/
theorem not_advances (h : s.Stuck code fault) (t : State α) : ¬ Advances code s t := by
  intro hadvances
  obtain ⟨i, hi, heffect⟩ := h
  obtain ⟨j, hj, hyields⟩ := advances_iff.mp hadvances
  obtain rfl := Option.some.inj (hi.symm.trans hj)
  rw [heffect] at hyields
  exact hyields

end State.Stuck

/-! ## When a machine is stuck -/

/-- Carrying out an effect ends in a fault of the program only if the effect is this fault: the
    host has others. -/
theorem eq_fault_of_perform {e : Effect α} (hconcerns : e.Concerns s) {w w' : σ}
    (h : e.perform host w = ⟨.error fault, t, w'⟩) (hfault : fault.OfProgram) :
    e = .fault fault s := by
  cases e with
  | done next => cases h
  | emit byte here =>
    rw [Effect.perform] at h
    split at h
    · cases h
    · obtain ⟨hcause, -, -⟩ := Outcome.mk.inj h
      obtain rfl := Except.error.inj hcause
      exact hfault.elim
  | ask here =>
    rw [Effect.perform] at h
    split at h
    · cases h
    · obtain ⟨hcause, -, -⟩ := Outcome.mk.inj h
      obtain rfl := Except.error.inj hcause
      exact hfault.elim
  | fault cause here =>
    obtain ⟨hcause, -, -⟩ := Outcome.mk.inj h
    obtain rfl := Except.error.inj hcause
    rw [hconcerns.1]

theorem stuck_of_attempt {w w' : σ} (h : attempt host code s w = ⟨.error fault, t, w'⟩)
    (hfault : fault.OfProgram) : s.Stuck code fault := by
  rw [attempt] at h
  split at h
  · cases h
  · next i hi => exact ⟨i, hi, eq_fault_of_perform (effect_concerns code s i) h hfault⟩

theorem stuck_of_rehearse (h : rehearse code s = (.error fault, t)) : s.Stuck code fault := by
  obtain ⟨i, hi, heffect, -⟩ := effect_of_rehearse_error h
  exact ⟨i, hi, heffect⟩

/-- Faults of the program come from stuck machines. -/
def Engine.Sticks (engine : Engine α ω) : Prop :=
  ∀ {step : Nat} {s t : State α} {w w' : ω} {fault : Fault}, fault.OfProgram →
    engine.attempt step s w = ⟨.error fault, t, w'⟩ → s.Stuck engine.code fault

theorem Engine.real_sticks (host : Host σ) (code : Code) :
    (Engine.real host code : Engine α σ).Sticks :=
  fun hfault h => stuck_of_attempt h hfault

theorem Engine.rehearsal_sticks (log : Row → ω → ω) (code : Code) :
    (Engine.rehearsal log code : Engine α ω).Sticks := by
  intro step s t w w' fault _ h
  exact stuck_of_rehearse (rehearse_of_rehearsal_attempt h)

/-- **A call that ends with a fault of the program leaves the machine stuck.** -/
theorem Engine.stuck_of_run_eq_ended {engine : Engine α ω} (lawful : engine.Lawful)
    (sticks : engine.Sticks) {control : Control ω} {turns : Nat} {first last : Run α ω}
    (h : engine.run control turns first = .ended (.error fault) last)
    (hfault : fault.OfProgram) : last.state.Stuck engine.code fault := by
  obtain ⟨ip, hip⟩ := hfault.exists_position
  rcases lawful.attempts_of_run_eq_ended h hip with ⟨_, _, -, hattempt⟩ | ⟨-, reason, -, rfl, -⟩
  · exact sticks hfault hattempt
  · exact hfault.elim

/-! ## The first turn -/

omit [Cell α] in
/-- A call that nothing stops before its first instruction attempts it. -/
theorem Bounds.admits_of_stopped? {bounds : Bounds} {console : Console}
    (h : bounds.stopped? console = none) : bounds.control.Admits (Run.start s console) := by
  rw [Bounds.stopped?] at h
  split at h
  · nomatch h
  · next hcanceled =>
    split at h
    · nomatch h
    · next hlimit =>
      refine ⟨Bool.eq_false_iff.mpr hcanceled, ?_⟩
      intro limit hsome
      refine Nat.pos_of_ne_zero ?_
      rintro rfl
      exact hlimit hsome

/-- What a call comes to where the machine cannot advance: the fault of the instruction, unless it
    is stopped before. -/
theorem Engine.run_of_stuck (engine : Engine α Console) (bounds : Bounds) {console : Console}
    (hstuck : s.Stuck engine.code fault)
    (hattempt : engine.attempt 0 s console = ⟨.error fault, s, console⟩) (turns : Nat) :
    engine.run bounds.control (turns + 1) (Run.start s console)
      = .ended (.error ((bounds.stopped? console).getD fault)) (Run.start s console) := by
  have hunfinished := hstuck.unfinished
  have hturn : engine.Turn bounds.control (Run.start s console)
      (.ended (.error ((bounds.stopped? console).getD fault)) (Run.start s console)) := by
    cases hstopped : bounds.stopped? console with
    | none => exact .failed hunfinished (Bounds.admits_of_stopped? hstopped) hattempt
    | some cause =>
      rw [Bounds.stopped?] at hstopped
      split at hstopped
      · next hcanceled =>
        obtain rfl := Option.some.inj hstopped
        exact .canceled hunfinished hcanceled
      · next hgoing =>
        split at hstopped
        · next hlimit =>
          obtain rfl := Option.some.inj hstopped
          exact .limited hunfinished (Bool.eq_false_iff.mpr hgoing) hlimit (Nat.le_refl 0)
        · nomatch hstopped
  rw [Engine.run, hturn.tick_eq]

/-! ## Sessions -/

namespace Session

variable {session failed later : Session α} {c : Call} {result : Except Fault Unit}
  {events : List Event} {passed : List (State α)}

theorem stuck_of_ends (h : session.Ends c (.error fault) failed) (hfault : fault.OfProgram) :
    failed.state.Stuck failed.code fault := by
  obtain ⟨turns, h⟩ := h
  cases c with
  | step =>
    obtain ⟨hresult, rfl⟩ := Prod.mk.inj (Option.some.inj h)
    rcases hattempt : attempt Console.host session.code session.state session.console
      with ⟨result, t, console⟩
    rw [hattempt] at hresult
    obtain rfl : result = _ := hresult
    obtain ⟨rfl, -⟩ := attempt_eq_error hattempt
    exact stuck_of_attempt hattempt hfault
  | run bounds =>
    obtain ⟨last, hrun, rfl⟩ := exists_run_of_ended h
    exact Engine.stuck_of_run_eq_ended (Engine.real_lawful _ _) (Engine.real_sticks _ _) hrun hfault
  | rehearse bounds =>
    obtain ⟨last, hrun, rfl⟩ := exists_run_of_ended h
    exact Engine.stuck_of_run_eq_ended (Engine.rehearsal_lawful _ _) (Engine.rehearsal_sticks _ _)
      hrun hfault

/-- **A call of a stuck session fails**, and all that is left of it is the head of a table. -/
theorem call_of_stuck (h : session.state.Stuck session.code fault) (c : Call) (turns : Nat) :
    session.call (turns + 1) c
      = some (.error ((c.stopped? session.console).getD fault),
        { session with console := c.announced session.console }) := by
  cases c with
  | step =>
    have hattempt : attempt Console.host session.code session.state session.console = _ :=
      h.attempt_eq session.console
    rw [call, step, hattempt]
    rfl
  | run bounds =>
    have hrun := Engine.run_of_stuck (Engine.real Console.host session.code) bounds h
      (h.attempt_eq session.console) turns
    rw [call, hrun]
    rfl
  | rehearse bounds =>
    have hattempt : (printing session.code).attempt 0 session.state
        (session.console.print Row.header) = _ := rehearsal_attempt_of_error h.rehearse_eq
    rw [call, Engine.run_of_stuck (printing session.code) bounds h hattempt turns]
    rfl

/-- **Program faults are permanent.**  Once a call has ended with a fault of the program, then for
    the rest of the session's life the machine stands where it stood, and every call ends at once
    with this very fault — unless its flag is up, or else its limit is zero — and leaves the
    console alone, but for the head of a table without rows. -/
theorem program_faults_are_permanent (hfailed : session.Ends c (.error fault) failed)
    (hfault : fault.OfProgram) (hlater : failed.Lives events passed later) :
    later.state = failed.state ∧ passed = []
      ∧ ∀ (c : Call) (turns : Nat), later.call (turns + 1) c
        = some (.error ((c.stopped? later.console).getD fault),
          { later with console := c.announced later.console }) := by
  have hstuck := stuck_of_ends hfailed hfault
  obtain ⟨hpassed, hstate⟩ := hlater.stands_still hstuck.not_advances
  refine ⟨hstate, hpassed, ?_⟩
  intro c turns
  rw [← hstate, ← hlater.code_eq] at hstuck
  exact call_of_stuck hstuck c turns

/-- A run that has failed, new hooks and a raised flag, a step, and a run that does not heed the
    flag: it fails where the first one has. -/
theorem run_after_underflow :
    ({ code := Code.ofText "+<.", state := { tape := Tape.blank.increment, ip := 1 },
        console := { collecting := true, canceled := true } } : Session).call 7
          (.run { limit := some 3 })
      = some (.error (.underflow 1),
        { code := Code.ofText "+<.", state := { tape := Tape.blank.increment, ip := 1 },
          console := { collecting := true, canceled := true } }) := by
  have hfailed : ({ code := Code.ofText "+<." } : Session).Ends (.run {}) (.error (.underflow 1))
      { code := Code.ofText "+<.", state := { tape := Tape.blank.increment, ip := 1 } } := ⟨2, rfl⟩
  have hstep :
      ({ code := Code.ofText "+<.", state := { tape := Tape.blank.increment, ip := 1 },
         console := { collecting := true, canceled := true } } : Session).call 1 .step
        = some (.error (.underflow 1),
          { code := Code.ofText "+<.", state := { tape := Tape.blank.increment, ip := 1 },
            console := { collecting := true, canceled := true } }) := rfl
  have hfresh :
      ({ code := Code.ofText "+<.",
         state := { tape := Tape.blank.increment, ip := 1 } } : Session).Lives [] [] _ := .fresh
  have hlater := (hfresh.change { collecting := true, canceled := true }).call hstep
  obtain ⟨-, -, hcall⟩ := program_faults_are_permanent hfailed trivial hlater
  exact hcall (.run { limit := some 3 }) 6

end Session

end Brainfuck
