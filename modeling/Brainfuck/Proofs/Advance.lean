/-
  Advances: what an instruction that succeeds does to the machine, whoever carries it out.

  Two readers carry out instructions, a real run and a rehearsal, and a real run may get any
  line at all.  To the machine this makes a difference in one place: what `,` stores.  So there is
  ONE relation between the states around an instruction that succeeds, `Advances`, with a case
  for each thing that can happen; and whatever all its cases keep is kept by every call.

  1. `advances_iff` reads the cases off `effect`, and both readers only make steps of the
     relation (`advances_of_attempt`, `advances_of_rehearse`).
  2. `Engine.Lawful` says so of an engine, and that an attempt that fails leaves the state alone.
     Both engines are lawful.
  3. Hence the states a call passes, and those of a whole life, are a `Trail`: each is an advance
     of the one before, and the last is where the machine stands (`Session.Lives.trail`).

  A state without any advance is the end of its life (`Session.Lives.stands_still`).
-/
import Brainfuck.Life
import Brainfuck.Proofs.Turns

namespace Brainfuck

variable {α : Type} [Cell α] {σ ω : Type} {host : Host σ} {code : Code} {s t u : State α}

/-! ## One instruction -/

/-- An instruction takes the machine from `s` to another state. -/
inductive Advances (code : Code) (s : State α) : State α → Prop
  | right (hi : code.program[s.ip]? = some .right) :
      Advances code s { tape := s.tape.moveRight, ip := s.ip + 1 }
  | left {tape : Tape α} (hi : code.program[s.ip]? = some .left)
      (hleft : s.tape.moveLeft = .ok tape) :
      Advances code s { tape, ip := s.ip + 1 }
  | increment (hi : code.program[s.ip]? = some .increment) :
      Advances code s { tape := s.tape.increment, ip := s.ip + 1 }
  | decrement (hi : code.program[s.ip]? = some .decrement) :
      Advances code s { tape := s.tape.decrement, ip := s.ip + 1 }
  | output (hi : code.program[s.ip]? = some .output) : Advances code s s.advance
  /-- Any line may be read, and so may the end of the input. -/
  | input (line : Option String) (hi : code.program[s.ip]? = some .input) :
      Advances code s { tape := s.tape.store (Line.answerCode line), ip := s.ip + 1 }
  | enter (hi : code.program[s.ip]? = some .loopOpen) (hvalue : s.tape.value ≠ 0) :
      Advances code s s.advance
  | skip {partner : Nat} (hi : code.program[s.ip]? = some .loopOpen) (hzero : s.tape.value = 0)
      (hpartner : code.loops.closeOf s.ip = .ok partner) :
      Advances code s (s.jump partner)
  | leave (hi : code.program[s.ip]? = some .loopClose) (hzero : s.tape.value = 0) :
      Advances code s s.advance
  | again {partner : Nat} (hi : code.program[s.ip]? = some .loopClose)
      (hvalue : s.tape.value ≠ 0) (hpartner : code.loops.openOf s.ip = .ok partner) :
      Advances code s (s.jump partner)

/-- An effect can be carried out so that the machine is in this state behind it. -/
def Effect.Yields : Effect α → State α → Prop
  | .done next, t => t = next
  | .emit _ here, t => t = here.advance
  | .ask here, t =>
    ∃ line, t = { tape := here.tape.store (Line.answerCode line), ip := here.ip + 1 }
  | .fault _ _, _ => False

theorem advances_iff :
    Advances code s t ↔ ∃ i, code.program[s.ip]? = some i ∧ (effect code s i).Yields t := by
  constructor
  · intro h
    cases h with
    | right hi => exact ⟨_, hi, rfl⟩
    | left hi hleft =>
      refine ⟨_, hi, ?_⟩
      rw [effect, hleft]
      rfl
    | increment hi => exact ⟨_, hi, rfl⟩
    | decrement hi => exact ⟨_, hi, rfl⟩
    | output hi => exact ⟨_, hi, rfl⟩
    | input line hi => exact ⟨_, hi, line, rfl⟩
    | enter hi hvalue =>
      refine ⟨_, hi, ?_⟩
      rw [effect, if_neg hvalue]
      rfl
    | skip hi hzero hpartner =>
      refine ⟨_, hi, ?_⟩
      rw [effect, if_pos hzero, hpartner]
      rfl
    | leave hi hzero =>
      refine ⟨_, hi, ?_⟩
      rw [effect, if_neg (not_not_intro hzero)]
      rfl
    | again hi hvalue hpartner =>
      refine ⟨_, hi, ?_⟩
      rw [effect, if_pos hvalue, hpartner]
      rfl
  · rintro ⟨i, hi, h⟩
    cases i with
    | right =>
      obtain rfl : t = _ := h
      exact .right hi
    | left =>
      rw [effect] at h
      split at h
      · next hleft =>
        obtain rfl : t = _ := h
        exact .left hi hleft
      · exact h.elim
    | increment =>
      obtain rfl : t = _ := h
      exact .increment hi
    | decrement =>
      obtain rfl : t = _ := h
      exact .decrement hi
    | output =>
      obtain rfl : t = _ := h
      exact .output hi
    | input =>
      obtain ⟨line, rfl⟩ := h
      exact .input line hi
    | loopOpen =>
      rw [effect] at h
      split at h
      · next hzero =>
        split at h
        · next hpartner =>
          obtain rfl : t = _ := h
          exact .skip hi hzero hpartner
        · exact h.elim
      · next hvalue =>
        obtain rfl : t = _ := h
        exact .enter hi hvalue
    | loopClose =>
      rw [effect] at h
      split at h
      · next hvalue =>
        split at h
        · next hpartner =>
          obtain rfl : t = _ := h
          exact .again hi hvalue hpartner
        · exact h.elim
      · next hzero =>
        obtain rfl : t = _ := h
        exact .leave hi (Decidable.not_not.mp hzero)

/-- There is an instruction under the pointer of a machine that advances. -/
theorem Advances.ip_lt (h : Advances code s t) : s.ip < code.size := by
  obtain ⟨i, hi, _⟩ := advances_iff.mp h
  exact (Array.getElem?_eq_some_iff.mp hi).1

/-! ## The two readers -/

omit [Cell α] in
theorem exists_getElem?_of_unfinished (hunfinished : ¬ s.Finished code) :
    ∃ i, code.program[s.ip]? = some i := by
  have hlt : s.ip < code.program.size := Nat.lt_of_not_le hunfinished
  exact ⟨_, Array.getElem?_eq_getElem hlt⟩

theorem yields_of_perform {e : Effect α} {w w' : σ} (h : e.perform host w = ⟨.ok (), t, w'⟩) :
    e.Yields t := by
  cases e with
  | done next =>
    obtain ⟨-, rfl, -⟩ := Outcome.mk.inj h
    rfl
  | emit byte here =>
    rw [Effect.perform] at h
    split at h
    · obtain ⟨-, rfl, -⟩ := Outcome.mk.inj h
      rfl
    · cases h
  | ask here =>
    rw [Effect.perform] at h
    split at h
    · next line _ _ =>
      obtain ⟨-, rfl, -⟩ := Outcome.mk.inj h
      exact ⟨line, rfl⟩
    · cases h
  | fault cause here => cases h

/-- A rehearsal reads as at the end of the input. -/
theorem yields_of_suppress {e : Effect α} (h : e.suppress = (.ok (), t)) : e.Yields t := by
  cases e with
  | done next =>
    obtain ⟨-, rfl⟩ := Prod.mk.inj h
    rfl
  | emit byte here =>
    obtain ⟨-, rfl⟩ := Prod.mk.inj h
    rfl
  | ask here =>
    obtain ⟨-, rfl⟩ := Prod.mk.inj h
    exact ⟨none, rfl⟩
  | fault cause here => cases h

theorem advances_of_attempt {w w' : σ} (hunfinished : ¬ s.Finished code)
    (h : attempt host code s w = ⟨.ok (), t, w'⟩) : Advances code s t := by
  obtain ⟨i, hi⟩ := exists_getElem?_of_unfinished hunfinished
  rw [attempt, hi] at h
  exact advances_iff.mpr ⟨i, hi, yields_of_perform h⟩

theorem advances_of_rehearse (hunfinished : ¬ s.Finished code)
    (h : rehearse code s = (.ok (), t)) : Advances code s t := by
  obtain ⟨i, hi⟩ := exists_getElem?_of_unfinished hunfinished
  rw [rehearse, hi] at h
  exact advances_iff.mpr ⟨i, hi, yields_of_suppress h⟩

/-- A rehearsal that fails does so with the fault of the instruction, and where it stood. -/
theorem effect_of_rehearse_error {fault : Fault} (h : rehearse code s = (.error fault, t)) :
    ∃ i, code.program[s.ip]? = some i ∧ effect code s i = .fault fault s ∧ t = s := by
  rw [rehearse] at h
  split at h
  · cases h
  · next i hi =>
    refine ⟨i, hi, ?_⟩
    have hconcerns := effect_concerns code s i
    cases heffect : effect code s i with
    | done next => rw [heffect] at h; cases h
    | emit byte here => rw [heffect] at h; cases h
    | ask here => rw [heffect] at h; cases h
    | fault cause here =>
      rw [heffect] at h hconcerns
      obtain ⟨hcause, rfl⟩ := Prod.mk.inj h
      obtain rfl := Except.error.inj hcause
      exact ⟨congrArg _ hconcerns.1, hconcerns.1⟩

/-- What a rehearsal fails with belongs to the instruction. -/
theorem position?_of_rehearse_error {fault : Fault} (h : rehearse code s = (.error fault, t)) :
    fault.position? = some s.ip := by
  obtain ⟨i, -, heffect, -⟩ := effect_of_rehearse_error h
  have hconcerns := effect_concerns code s i
  rw [heffect] at hconcerns
  exact hconcerns.2

/-! ## Engines -/

/-- An engine makes of the machine what its code says. -/
structure Engine.Lawful (engine : Engine α ω) : Prop where
  advances : ∀ {step : Nat} {s t : State α} {w w' : ω}, ¬ s.Finished engine.code →
    engine.attempt step s w = ⟨.ok (), t, w'⟩ → Advances engine.code s t
  stays : ∀ {step : Nat} {s t : State α} {w w' : ω} {fault : Fault},
    engine.attempt step s w = ⟨.error fault, t, w'⟩ → t = s

theorem Engine.real_lawful (host : Host σ) (code : Code) :
    (Engine.real host code : Engine α σ).Lawful where
  advances hunfinished h := advances_of_attempt hunfinished h
  stays h := (attempt_eq_error h).1

/-- The row of an instruction that has taken the machine from `s` to `t`. -/
def Row.between (step : Nat) (s t : State α) (i : Instruction) : Row where
  step := step
  before := s.snapshot
  instruction := i
  action := Action.between s.snapshot t.snapshot i

section Rehearsal

variable {log : Row → ω → ω} {step : Nat} {w w' : ω} {result : Except Fault Unit}

/-- An instruction that succeeds in a rehearsal is logged, -/
theorem rehearsal_attempt_of_ok {i : Instruction} (hi : code.program[s.ip]? = some i)
    (h : rehearse code s = (.ok (), t)) :
    (Engine.rehearsal log code).attempt step s w
      = ⟨.ok (), t, log (Row.between step s t i) w⟩ := by
  have hi : code.program[s.snapshot.ip]? = some i := hi
  simp only [Engine.rehearsal, h, hi]
  rfl

/-- and one that fails is not. -/
theorem rehearsal_attempt_of_error {fault : Fault} (h : rehearse code s = (.error fault, t)) :
    (Engine.rehearsal log code).attempt step s w = ⟨.error fault, t, w⟩ := by
  simp only [Engine.rehearsal, h]

/-- Behind the program there is nothing to do, and nothing to log. -/
theorem rehearsal_attempt_of_none (hi : code.program[s.ip]? = none) :
    (Engine.rehearsal log code).attempt step s w = ⟨.ok (), s, w⟩ := by
  have hrehearse : rehearse code s = (.ok (), s) := by rw [rehearse, hi]
  have hi : code.program[s.snapshot.ip]? = none := hi
  simp only [Engine.rehearsal, hrehearse, hi]

/-- A rehearsal does to the machine what rehearsing its instruction does, and logs at most a
    row. -/
theorem rehearsal_attempt_eq (log : Row → ω → ω) (code : Code) (step : Nat) (s : State α)
    (w : ω) :
    ∃ w', (Engine.rehearsal log code).attempt step s w
        = ⟨(rehearse code s).1, (rehearse code s).2, w'⟩
      ∧ (w' = w ∨ ∃ row, w' = log row w) := by
  cases hi : code.program[s.ip]? with
  | none =>
    refine ⟨w, ?_, .inl rfl⟩
    rw [rehearsal_attempt_of_none hi, rehearse, hi]
  | some i =>
    rcases hrehearse : rehearse code s with ⟨⟨fault⟩ | ⟨⟨⟩⟩, t⟩
    · exact ⟨w, rehearsal_attempt_of_error hrehearse, .inl rfl⟩
    · exact ⟨_, rehearsal_attempt_of_ok hi hrehearse, .inr ⟨_, rfl⟩⟩

theorem rehearse_of_rehearsal_attempt
    (h : (Engine.rehearsal log code).attempt step s w = ⟨result, t, w'⟩) :
    rehearse code s = (result, t) := by
  obtain ⟨w'', heq, -⟩ := rehearsal_attempt_eq log code step s w
  rw [heq] at h
  obtain ⟨hresult, hstate, -⟩ := Outcome.mk.inj h
  exact Prod.ext hresult hstate

end Rehearsal

theorem Engine.rehearsal_lawful (log : Row → ω → ω) (code : Code) :
    (Engine.rehearsal log code : Engine α ω).Lawful where
  advances hunfinished h :=
    advances_of_rehearse hunfinished (rehearse_of_rehearsal_attempt h)
  stays h := by
    obtain ⟨-, -, -, hstays⟩ := effect_of_rehearse_error (rehearse_of_rehearsal_attempt h)
    exact hstays

/-- **The instruction that ends a call with its fault is the one the machine is at then**, unless the
    fault comes from closing the run. -/
theorem Engine.Lawful.attempts_of_run_eq_ended {engine : Engine α ω} (lawful : engine.Lawful)
    {control : Control ω} {turns ip : Nat} {first last : Run α ω} {fault : Fault}
    (h : engine.run control turns first = .ended (.error fault) last)
    (hip : fault.position? = some ip) :
    (∃ steps w, engine.Attempts control first { state := last.state, world := w, steps }
        ∧ engine.attempt steps last.state w = ⟨.error fault, last.state, last.world⟩)
      ∨ last.state.Finished engine.code ∧ ∃ reason w, fault = .io last.state.ip reason
        ∧ engine.close w = (.error reason, last.world) := by
  rcases Engine.attempts_of_run_eq_ended h hip with ⟨⟨s, w, steps⟩, hattempts, hattempt⟩ | hclosed
  · obtain rfl : last.state = s := lawful.stays hattempt
    exact .inl ⟨steps, w, hattempts, hattempt⟩
  · exact .inr hclosed

/-! ## Trails -/

/-- From `s` the machine comes to `t`, and `states` are the states behind each instruction. -/
inductive Trail (code : Code) : State α → List (State α) → State α → Prop
  | nil {s : State α} : Trail code s [] s
  | cons {s t u : State α} {states : List (State α)} (h : Advances code s t)
      (hrest : Trail code t states u) : Trail code s (t :: states) u

namespace Trail

variable {states more : List (State α)}

theorem append (h : Trail code s states t) (hmore : Trail code t more u) :
    Trail code s (states ++ more) u := by
  induction h with
  | nil => exact hmore
  | cons hadvances _ ih => exact .cons hadvances (ih hmore)

/-- Every state of a trail is the end of a shorter one. -/
theorem take {k : Nat} (h : Trail code s states t) (hk : (s :: states)[k]? = some u) :
    Trail code s (states.take k) u := by
  induction h generalizing k with
  | nil =>
    cases k with
    | zero =>
      obtain rfl := Option.some.inj hk
      exact .nil
    | succ k => cases hk
  | cons hadvances _ ih =>
    cases k with
    | zero =>
      obtain rfl := Option.some.inj hk
      exact .nil
    | succ k => exact .cons hadvances (ih hk)

/-- A trail ends at its last state. -/
theorem getLast?_eq (h : Trail code s states t) : (s :: states).getLast? = some t := by
  induction h with
  | nil => rfl
  | cons _ _ ih =>
    rw [List.getLast?_cons_cons]
    exact ih

/-- No trail leaves a state without an advance. -/
theorem of_still (hstill : ∀ t, ¬ Advances code s t) (h : Trail code s states t) :
    states = [] ∧ t = s := by
  cases h with
  | nil => exact ⟨rfl, rfl⟩
  | cons hadvances _ => exact absurd hadvances (hstill _)

end Trail

/-- **The states a call passes are a trail** to the state it has come to. -/
theorem Engine.Lawful.trail {engine : Engine α ω} (lawful : engine.Lawful) (control : Control ω)
    (turns : Nat) (first : Run α ω) :
    Trail engine.code first.state (engine.passed control turns first)
      (engine.run control turns first).point.state := by
  induction turns generalizing first with
  | zero => exact .nil
  | succ turns ih =>
    rw [Engine.run, Engine.passed]
    have hturn := engine.turn_tick control first
    generalize engine.tick control first = progress at hturn ⊢
    cases hturn with
    | succeeded hunfinished _ hattempt =>
      exact .cons (lawful.advances hunfinished hattempt) (ih _)
    | failed _ _ hattempt =>
      obtain rfl := lawful.stays hattempt
      exact .nil
    | finished _ _ => exact .nil
    | canceled _ _ => exact .nil
    | limited _ _ _ _ => exact .nil

/-! ## Sessions -/

namespace Session

variable {first s next : Session α} {result : Except Fault Unit} {turns : Nat} {c : Call}
  {events : List Event} {passed : List (State α)}

/-- How a run of a session has ended. -/
theorem exists_run_of_ended {engine : Engine α Console} {control : Control Console}
    {start : Run α Console}
    (h : ended s.code (engine.run control turns start) = some (result, next)) :
    ∃ last, engine.run control turns start = .ended result last
      ∧ next = { code := s.code, state := last.state, console := last.world } := by
  cases hrun : engine.run control turns start with
  | running last => rw [hrun] at h; cases h
  | ended ending last =>
    rw [hrun] at h
    obtain ⟨rfl, rfl⟩ := Prod.mk.inj (Option.some.inj h)
    exact ⟨last, rfl, rfl⟩

theorem code_reached (s : Session α) (turns : Nat) (c : Call) :
    (s.reached turns c).code = s.code := by
  cases c <;> rfl

/-- A call that has ended has reached its end. -/
theorem reached_of_call (h : s.call turns c = some (result, next)) : s.reached turns c = next := by
  cases c with
  | step => exact congrArg Prod.snd (Option.some.inj h)
  | run bounds =>
    obtain ⟨last, hrun, rfl⟩ := exists_run_of_ended h
    rw [reached, hrun]
    rfl
  | rehearse bounds =>
    obtain ⟨last, hrun, rfl⟩ := exists_run_of_ended h
    rw [reached, hrun]
    rfl

theorem code_of_call (h : s.call turns c = some (result, next)) : next.code = s.code := by
  rw [← reached_of_call h, code_reached]

/-- The states a call passes are a trail, whether it has ended or not. -/
theorem trail_reached (s : Session α) (turns : Nat) (c : Call) :
    Trail s.code s.state (s.passed turns c) (s.reached turns c).state := by
  cases c with
  | step =>
    rw [Session.passed, reached]
    rcases hattempt : attempt Console.host s.code s.state s.console with ⟨⟨fault⟩ | ⟨⟨⟩⟩, t, w⟩
    · obtain ⟨rfl, -⟩ := attempt_eq_error hattempt
      simp only [step, hattempt]
      split <;> exact .nil
    · simp only [step, hattempt]
      split
      · next hfinished =>
        rw [attempt_of_finished hfinished] at hattempt
        obtain ⟨-, rfl, -⟩ := Outcome.mk.inj hattempt
        exact .nil
      · next hunfinished => exact .cons (advances_of_attempt hunfinished hattempt) .nil
  | run bounds =>
    exact (Engine.real_lawful Console.host s.code).trail bounds.control turns
      (Run.start s.state s.console)
  | rehearse bounds =>
    have hlawful : (printing s.code : Engine α Console).Lawful := Engine.rehearsal_lawful _ s.code
    exact hlawful.trail bounds.control turns (Run.start s.state (s.console.print Row.header))

theorem Lives.code_eq (h : first.Lives events passed s) : s.code = first.code := by
  induction h with
  | fresh => rfl
  | call _ hcall ih => rw [code_of_call hcall, ih]
  | change _ _ ih => exact ih

/-- **The states of a life are a trail** to the state in which the machine is. -/
theorem Lives.trail (h : first.Lives events passed s) :
    Trail first.code first.state passed s.state := by
  induction h with
  | fresh => exact .nil
  | @call _ _ s _ turns c _ hlives hcall ih =>
    have htrail := s.trail_reached turns c
    rw [reached_of_call hcall, hlives.code_eq] at htrail
    exact ih.append htrail
  | change _ _ ih => exact ih

/-- **A machine that cannot advance never does again**, whatever is asked of it. -/
theorem Lives.stands_still (h : first.Lives events passed s)
    (hstill : ∀ t, ¬ Advances first.code first.state t) :
    passed = [] ∧ s.state = first.state :=
  h.trail.of_still hstill

end Session

end Brainfuck
