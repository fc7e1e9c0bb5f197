/-
  Turns: what one turn of the loop can do, and what a run is made of.

  1. `Engine.Turn` lists the five ways in which a turn goes, with everything that is known in
     each; `tick` is never opened again after `Turn.tick_eq` and `turn_tick`.
  2. A call that ends has made some turns that succeeded and then one that ended it
     (`run_eq_ended`).  The turns that succeeded are turns of a FREE call too: limits and flags
     stop a call and do nothing else (`run_free_of_run`).
  3. A real run that nobody limits is `outcomeIn`: the same loop without the count of its steps,
     by recursion on the turns it may take.  This is the form in which two runs are compared.

  An attempt that fails leaves the state alone and blames the instruction it was made on
  (`attempt_eq_error`).
-/
import Brainfuck.Console

namespace Brainfuck

/-! ## One turn -/

section Turn

variable {α ω : Type} {engine : Engine α ω} {control : Control ω} {run : Run α ω}

/-- Neither flag nor limit stops a call here. -/
structure Control.Admits (control : Control ω) (run : Run α ω) : Prop where
  going : control.canceled run.world = false
  room : ∀ limit, control.limit = some limit → run.steps < limit

theorem Control.free_admits (run : Run α ω) : Control.free.Admits run :=
  ⟨rfl, fun _ h => nomatch h⟩

/-- The ways in which a turn goes. -/
inductive Engine.Turn (engine : Engine α ω) (control : Control ω) (run : Run α ω) :
    Progress α ω → Prop
  /-- There is nothing left to run. -/
  | finished {closing : Except String Unit} {world : ω}
      (hfinished : run.state.Finished engine.code)
      (hclose : engine.close run.world = (closing, world)) :
      Turn engine control run
        (.ended (closing.mapError (.io run.state.ip)) { run with world })
  | canceled (hunfinished : ¬ run.state.Finished engine.code)
      (hcanceled : control.canceled run.world = true) :
      Turn engine control run (.ended (.error .canceled) run)
  | limited {limit : Nat} (hunfinished : ¬ run.state.Finished engine.code)
      (hgoing : control.canceled run.world = false) (hlimit : control.limit = some limit)
      (hused : limit ≤ run.steps) :
      Turn engine control run (.ended (.error (.stepLimit limit)) run)
  /-- The instruction fails. -/
  | failed {fault : Fault} {state : State α} {world : ω}
      (hunfinished : ¬ run.state.Finished engine.code) (hadmits : control.Admits run)
      (hattempt : engine.attempt run.steps run.state run.world = ⟨.error fault, state, world⟩) :
      Turn engine control run (.ended (.error fault) { run with state, world })
  /-- The instruction succeeds. -/
  | succeeded {state : State α} {world : ω}
      (hunfinished : ¬ run.state.Finished engine.code) (hadmits : control.Admits run)
      (hattempt : engine.attempt run.steps run.state run.world = ⟨.ok (), state, world⟩) :
      Turn engine control run (.running { state, world, steps := run.steps + 1 })

/-- Where nothing stops the call, a turn is an attempt. -/
theorem Engine.tick_of_admits (hunfinished : ¬ run.state.Finished engine.code)
    (hadmits : control.Admits run) : engine.tick control run = tick.turn engine run := by
  rw [Engine.tick, if_neg hunfinished, if_neg (by rw [hadmits.going]; decide)]
  split
  · next limit hlimit => exact if_neg (Nat.not_le_of_lt (hadmits.room limit hlimit))
  · rfl

/-- What is known in each of the ways tells how the turn goes. -/
theorem Engine.Turn.tick_eq {progress : Progress α ω} (h : engine.Turn control run progress) :
    engine.tick control run = progress := by
  cases h with
  | @finished closing world hfinished hclose =>
    rw [Engine.tick, if_pos hfinished, hclose]
    cases closing <;> rfl
  | canceled hunfinished hcanceled =>
    rw [Engine.tick, if_neg hunfinished, if_pos hcanceled]
  | limited hunfinished hgoing hlimit hused =>
    rw [Engine.tick, if_neg hunfinished, if_neg (by rw [hgoing]; decide), hlimit]
    exact if_pos hused
  | failed hunfinished hadmits hattempt =>
    rw [Engine.tick_of_admits hunfinished hadmits, Engine.tick.turn, hattempt]
  | succeeded hunfinished hadmits hattempt =>
    rw [Engine.tick_of_admits hunfinished hadmits, Engine.tick.turn, hattempt]

/-- An attempt fails or succeeds. -/
theorem Engine.turn_of_admits (hunfinished : ¬ run.state.Finished engine.code)
    (hadmits : control.Admits run) : engine.Turn control run (engine.tick control run) := by
  rw [Engine.tick_of_admits hunfinished hadmits, Engine.tick.turn]
  rcases hattempt : engine.attempt run.steps run.state run.world with ⟨⟨fault⟩ | ⟨⟨⟩⟩, state, world⟩
  · exact .failed hunfinished hadmits hattempt
  · exact .succeeded hunfinished hadmits hattempt

/-- **Every turn goes in one of these ways.** -/
theorem Engine.turn_tick (engine : Engine α ω) (control : Control ω) (run : Run α ω) :
    engine.Turn control run (engine.tick control run) := by
  by_cases hfinished : run.state.Finished engine.code
  · rcases hclose : engine.close run.world with ⟨closing, world⟩
    have hturn : engine.Turn control run _ := .finished hfinished hclose
    rw [hturn.tick_eq]
    exact hturn
  · cases hcanceled : control.canceled run.world with
    | true =>
      have hturn : engine.Turn control run _ := .canceled hfinished hcanceled
      rw [hturn.tick_eq]
      exact hturn
    | false =>
      by_cases hused : ∃ limit, control.limit = some limit ∧ limit ≤ run.steps
      · obtain ⟨limit, hlimit, hused⟩ := hused
        have hturn : engine.Turn control run _ := .limited hfinished hcanceled hlimit hused
        rw [hturn.tick_eq]
        exact hturn
      · refine Engine.turn_of_admits hfinished ⟨hcanceled, fun limit hlimit => ?_⟩
        exact Nat.lt_of_not_le fun h => hused ⟨limit, hlimit, h⟩

/-- A turn of a call that is not limited: the attempt succeeds. -/
theorem Engine.tick_of_ok (hunfinished : ¬ run.state.Finished engine.code)
    (hadmits : control.Admits run) {state : State α} {world : ω}
    (hattempt : engine.attempt run.steps run.state run.world = ⟨.ok (), state, world⟩) :
    engine.tick control run = .running { state, world, steps := run.steps + 1 } :=
  (Engine.Turn.succeeded hunfinished hadmits hattempt).tick_eq

end Turn

/-! ## Calls as sequences of turns -/

section Calls

variable {α ω : Type} {engine : Engine α ω} {control : Control ω} {first last : Run α ω}
  {result : Except Fault Unit} {n : Nat}

/-- **Limits and flags only stop a call**: the turns that have succeeded are turns of a free call,
    and each has counted one step. -/
theorem Engine.run_free_of_run (h : engine.run control n first = .running last) :
    engine.run .free n first = .running last ∧ last.steps = first.steps + n := by
  induction n generalizing first with
  | zero =>
    obtain rfl := Progress.running.inj h
    exact ⟨rfl, rfl⟩
  | succ n ih =>
    rw [Engine.run] at h ⊢
    have hturn := engine.turn_tick control first
    cases htick : engine.tick control first with
    | ended result run => rw [htick] at h; cases h
    | running next =>
      rw [htick] at h hturn
      cases hturn with
      | succeeded hunfinished _ hattempt =>
        rw [Engine.tick_of_ok hunfinished (Control.free_admits first) hattempt]
        obtain ⟨hfree, hsteps⟩ := ih h
        exact ⟨hfree, by rw [hsteps]; show first.steps + 1 + n = _; omega⟩

/-- **A call that ends has made turns that succeeded and one that ended it.** -/
theorem Engine.exists_of_run_eq_ended (h : engine.run control n first = .ended result last) :
    ∃ m point, engine.run control m first = .running point
      ∧ engine.Turn control point (.ended result last) := by
  induction n generalizing first with
  | zero => cases h
  | succ n ih =>
    rw [Engine.run] at h
    have hturn := engine.turn_tick control first
    cases htick : engine.tick control first with
    | ended result' run =>
      rw [htick] at h hturn
      cases h
      exact ⟨0, first, rfl, hturn⟩
    | running next =>
      rw [htick] at h
      obtain ⟨m, point, hm, hpoint⟩ := ih h
      refine ⟨m + 1, point, ?_, hpoint⟩
      rw [Engine.run, htick]
      exact hm

/-- At this point of a call an instruction is attempted. -/
structure Engine.Attempts (engine : Engine α ω) (control : Control ω) (first point : Run α ω) :
    Prop where
  reached : ∃ turns, engine.run control turns first = .running point
  unfinished : ¬ point.state.Finished engine.code
  admits : control.Admits point

/-- **What ends a call with a fault that has a position**: an instruction that is attempted and
    fails, or the closing of the run behind the last one. -/
theorem Engine.attempts_of_run_eq_ended {fault : Fault} {ip : Nat}
    (h : engine.run control n first = .ended (.error fault) last)
    (hip : fault.position? = some ip) :
    (∃ point, engine.Attempts control first point
        ∧ engine.attempt point.steps point.state point.world
          = ⟨.error fault, last.state, last.world⟩)
      ∨ last.state.Finished engine.code ∧ ∃ reason w, fault = .io last.state.ip reason
        ∧ engine.close w = (.error reason, last.world) := by
  obtain ⟨m, point, hpoint, hturn⟩ := Engine.exists_of_run_eq_ended h
  -- Of the ways in which a turn ends a call, the flag and the limit give faults without a position.
  generalize hresult : (Except.error fault : Except Fault Unit) = result at hturn
  cases hturn with
  | @finished closing world hfinished hclose =>
    cases closing with
    | ok _ => nomatch hresult
    | error reason =>
      obtain rfl := Except.error.inj hresult
      exact .inr ⟨hfinished, reason, point.world, rfl, hclose⟩
  | canceled _ _ =>
    obtain rfl := Except.error.inj hresult
    nomatch hip
  | limited _ _ _ _ =>
    obtain rfl := Except.error.inj hresult
    nomatch hip
  | failed hunfinished hadmits hattempt =>
    obtain rfl := Except.error.inj hresult
    exact .inl ⟨point, ⟨⟨m, hpoint⟩, hunfinished, hadmits⟩, hattempt⟩

/-- The last of some turns that have succeeded comes after the others. -/
theorem Engine.run_succ_eq_running_iff :
    engine.run control (n + 1) first = .running last
      ↔ ∃ point, engine.run control n first = .running point
        ∧ engine.tick control point = .running last := by
  have hone (point : Run α ω) : engine.run control 1 point = engine.tick control point := by
    rw [Engine.run]
    cases engine.tick control point with
    | running next => rfl
    | ended result run => rfl
  rw [Engine.run_add]
  cases hrun : engine.run control n first with
  | ended result run =>
    constructor
    · intro h
      cases h
    · rintro ⟨point, hpoint, -⟩
      cases hpoint
  | running point =>
    show engine.run control 1 point = _ ↔ _
    rw [hone]
    constructor
    · intro h
      exact ⟨point, rfl, h⟩
    · rintro ⟨_, ⟨⟩, h⟩
      exact h

/-- And so it ends, if such a turn comes after turns that succeeded. -/
theorem Engine.ends_of_turn {point : Run α ω} (hpoint : engine.run control n first = .running point)
    (hturn : engine.Turn control point (.ended result last)) :
    engine.Ends control first ⟨result, last.state, last.world⟩ := by
  refine ⟨n + 1, ?_⟩
  rw [Engine.run_add, hpoint]
  show (engine.run control 1 point).outcome? = _
  rw [Engine.run, hturn.tick_eq]
  rfl

/-- A call ends at an instruction that is attempted and fails. -/
theorem Engine.Attempts.ends {point : Run α ω} (h : engine.Attempts control first point)
    {fault : Fault} {state : State α} {world : ω}
    (hattempt : engine.attempt point.steps point.state point.world
      = ⟨.error fault, state, world⟩) :
    engine.Ends control first ⟨.error fault, state, world⟩ := by
  obtain ⟨turns, hpoint⟩ := h.reached
  exact Engine.ends_of_turn hpoint (.failed h.unfinished h.admits hattempt)

/-- A call ends in one way. -/
theorem Engine.Ends.unique {o o' : Outcome α ω} (h : engine.Ends control first o)
    (h' : engine.Ends control first o') : o = o' := by
  obtain ⟨m, hm⟩ := h
  obtain ⟨n, hn⟩ := h'
  -- Given the larger number of turns, both calls have ended, and they are one call.
  cases hrun : engine.run control m first with
  | running last => rw [hrun] at hm; cases hm
  | ended result last =>
    cases hrun' : engine.run control n first with
    | running last' => rw [hrun'] at hn; cases hn
    | ended result' last' =>
      have hmax := Engine.run_of_ended hrun (Nat.le_max_left m n)
      rw [Engine.run_of_ended hrun' (Nat.le_max_right m n)] at hmax
      rw [hrun] at hm
      rw [hrun', hmax, hm] at hn
      exact Option.some.inj hn

end Calls

/-! ## Attempts -/

/-- A look-up that fails blames the position and the side it was asked about. -/
theorem Loops.eq_of_lookup_eq_error {table : Array (Option Nat)} {side : Side} {position : Nat}
    {u : Unmatched} (h : lookup table side position = .error u) : u = ⟨position, side⟩ := by
  rw [lookup] at h
  split at h
  · cases h
  · exact (Except.error.inj h).symm

section Attempts

variable {α : Type} [Cell α] {σ : Type} {host : Host σ} {code : Code} {s : State α}

/-- What an effect says about the state it was asked in: only success has left it, and a fault
    belongs to the instruction of that state. -/
def Effect.Concerns (s : State α) : Effect α → Prop
  | .done _ => True
  | .emit _ here => here = s
  | .ask here => here = s
  | .fault cause here => here = s ∧ cause.position? = some s.ip

theorem effect_concerns (code : Code) (s : State α) (i : Instruction) :
    (effect code s i).Concerns s := by
  cases i with
  | right => trivial
  | left =>
    rw [effect]
    split
    · trivial
    · exact ⟨rfl, rfl⟩
  | increment => trivial
  | decrement => trivial
  | output => exact rfl
  | input => exact rfl
  | loopOpen =>
    rw [effect]
    split
    · split
      · trivial
      · next u hu =>
        rw [Loops.eq_of_lookup_eq_error hu]
        exact ⟨rfl, rfl⟩
    · trivial
  | loopClose =>
    rw [effect]
    split
    · split
      · trivial
      · next u hu =>
        rw [Loops.eq_of_lookup_eq_error hu]
        exact ⟨rfl, rfl⟩
    · trivial

/-- Carrying out an effect fails in the state it was asked in. -/
theorem perform_eq_error {e : Effect α} (hconcerns : e.Concerns s) {fault : Fault}
    {s' : State α} {w w' : σ} (h : e.perform host w = ⟨.error fault, s', w'⟩) :
    s' = s ∧ fault.position? = some s.ip := by
  cases e with
  | done next => cases h
  | emit byte here =>
    obtain rfl : here = s := hconcerns
    rcases hwrite : host.write byte w with ⟨⟨reason⟩ | ⟨⟨⟩⟩, world⟩
    · rw [Effect.perform, hwrite] at h
      cases h
      exact ⟨rfl, rfl⟩
    · rw [Effect.perform, hwrite] at h
      cases h
  | ask here =>
    obtain rfl : here = s := hconcerns
    rcases hread : host.readLine w with ⟨⟨reason⟩ | ⟨line⟩, world⟩
    · rw [Effect.perform, hread] at h
      cases h
      exact ⟨rfl, rfl⟩
    · rw [Effect.perform, hread] at h
      cases h
  | fault cause here =>
    cases h
    exact hconcerns

/-- **An attempt that fails** leaves the state alone and blames the instruction in it. -/
theorem attempt_eq_error {fault : Fault} {s' : State α} {w w' : σ}
    (h : attempt host code s w = ⟨.error fault, s', w'⟩) :
    s' = s ∧ fault.position? = some s.ip := by
  rw [attempt] at h
  split at h
  · cases h
  · next i _ => exact perform_eq_error (effect_concerns code s i) h

/-- There is nothing to attempt when the program is over. -/
theorem attempt_of_finished {w : σ} (h : s.Finished code) :
    attempt host code s w = ⟨.ok (), s, w⟩ := by
  have hnone : code.program[s.ip]? = none := Array.getElem?_eq_none h
  rw [attempt, hnone]

end Attempts

/-! ## Hooks -/

section Hooks

variable {α : Type} [Cell α] {σ : Type} {host : Host σ} {installed : σ → Prop}

/-- In these worlds the hooks are installed, and they stay so: every byte is taken, nothing is
    held back that would have to be flushed, and lines come from anywhere. -/
structure Host.Hooked (host : Host σ) (installed : σ → Prop) : Prop where
  write : ∀ byte w, installed w → ∃ w', host.write byte w = (.ok (), w') ∧ installed w'
  readLine : ∀ w, installed w → installed (host.readLine w).2
  flush : ∀ w, installed w → host.flush w = (.ok (), w)

/-- A console with a collector has its hooks installed. -/
theorem Console.hooked_host : Console.host.Hooked fun console => console.collecting = true where
  write byte console h := by
    refine ⟨notice { console with collected := console.collected.push byte }, ?_, h⟩
    show console.write byte = _
    rw [Console.write, if_pos h]
  readLine console h := by
    show (console.readLine).2.collecting = true
    rw [Console.readLine]
    split
    · exact h
    · exact h
  flush console h := by
    show console.flush = _
    rw [Console.flush, if_pos h]

/-- What an instruction does leaves the hooks installed. -/
theorem Host.Hooked.perform (hooked : host.Hooked installed) {w : σ} (hw : installed w)
    (e : Effect α) : installed (e.perform host w).world := by
  cases e with
  | done next => exact hw
  | emit byte here =>
    obtain ⟨w', hwrite, hw'⟩ := hooked.write byte w hw
    rw [Effect.perform, hwrite]
    exact hw'
  | ask here =>
    have hread := hooked.readLine w hw
    rcases hline : host.readLine w with ⟨⟨reason⟩ | ⟨line⟩, world⟩
    · rw [hline] at hread
      rw [Effect.perform, hline]
      exact hread
    · rw [hline] at hread
      rw [Effect.perform, hline]
      exact hread
  | fault cause here => exact hw

theorem Host.Hooked.attempt (hooked : host.Hooked installed) {w : σ} (hw : installed w)
    (code : Code) (s : State α) : installed (attempt host code s w).world := by
  rw [Brainfuck.attempt]
  split
  · exact hw
  · exact hooked.perform hw _

end Hooks

/-! ## Free real runs -/

section FreeRuns

variable {α : Type} [Cell α] {σ : Type} {host : Host σ} {code : Code}

/-- How a free real run ends if it does so within a number of turns. -/
def outcomeIn (host : Host σ) (code : Code) : Nat → State α → σ → Option (Outcome α σ)
  | 0, _, _ => none
  | turns + 1, s, w =>
    if s.Finished code then
      let (closing, w) := host.flush w
      some ⟨closing.mapError (.io s.ip), s, w⟩
    else
      match attempt host code s w with
      | ⟨.ok (), s, w⟩ => outcomeIn host code turns s w
      | ⟨.error fault, s, w⟩ => some ⟨.error fault, s, w⟩

/-- **`outcomeIn` is the loop**, whatever steps have been counted before. -/
theorem outcome?_run_real (turns : Nat) (s : State α) (w : σ) (steps : Nat) :
    ((Engine.real host code).run .free turns { state := s, world := w, steps }).outcome?
      = outcomeIn host code turns s w := by
  induction turns generalizing s w steps with
  | zero => rfl
  | succ turns ih =>
    rw [Engine.run, outcomeIn]
    have hturn := (Engine.real host code).turn_tick .free { state := s, world := w, steps }
    generalize (Engine.real host code).tick .free { state := s, world := w, steps } = progress
      at hturn ⊢
    cases hturn with
    | finished hfinished hclose =>
      have hfinished : s.Finished code := hfinished
      have hclose : host.flush w = _ := hclose
      rw [if_pos hfinished, hclose]
      rfl
    | canceled _ hcanceled => cases hcanceled
    | limited _ _ hlimit => cases hlimit
    | failed hunfinished _ hattempt =>
      have hunfinished : ¬ s.Finished code := hunfinished
      have hattempt : attempt host code s w = _ := hattempt
      rw [if_neg hunfinished, hattempt]
      rfl
    | succeeded hunfinished _ hattempt =>
      have hunfinished : ¬ s.Finished code := hunfinished
      have hattempt : attempt host code s w = _ := hattempt
      rw [if_neg hunfinished, hattempt]
      exact ih _ _ _

variable {s s' : State α} {w w' : σ} {o : Outcome α σ} {turns : Nat}

theorem ends_real_iff {steps : Nat} :
    (Engine.real host code).Ends .free { state := s, world := w, steps } o
      ↔ ∃ turns, outcomeIn host code turns s w = some o := by
  constructor
  · rintro ⟨turns, h⟩
    rw [outcome?_run_real] at h
    exact ⟨turns, h⟩
  · rintro ⟨turns, h⟩
    refine ⟨turns, ?_⟩
    rw [outcome?_run_real]
    exact h

/-- A run goes on behind an instruction that succeeds. -/
theorem outcomeIn_of_ok (hunfinished : ¬ s.Finished code)
    (hattempt : attempt host code s w = ⟨.ok (), s', w'⟩) :
    outcomeIn host code (turns + 1) s w = outcomeIn host code turns s' w' := by
  rw [outcomeIn, if_neg hunfinished, hattempt]

/-- A run ends at an instruction that fails. -/
theorem outcomeIn_of_error (hunfinished : ¬ s.Finished code) {fault : Fault}
    (hattempt : attempt host code s w = ⟨.error fault, s', w'⟩) :
    outcomeIn host code (turns + 1) s w = some ⟨.error fault, s', w'⟩ := by
  rw [outcomeIn, if_neg hunfinished, hattempt]

/-- A run ends as it does behind an instruction that succeeds. -/
theorem exists_outcomeIn_of_ok (hunfinished : ¬ s.Finished code)
    (hattempt : attempt host code s w = ⟨.ok (), s', w'⟩)
    (h : ∃ turns, outcomeIn host code turns s' w' = some o) :
    ∃ turns, outcomeIn host code turns s w = some o := by
  obtain ⟨turns, hturns⟩ := h
  refine ⟨turns + 1, ?_⟩
  rw [outcomeIn_of_ok hunfinished hattempt]
  exact hturns

/-- A run that ends has taken a turn. -/
theorem pos_of_outcomeIn (h : outcomeIn host code turns s w = some o) : 0 < turns := by
  cases turns with
  | zero => cases h
  | succ turns => exact Nat.succ_pos turns

/-- More turns do not change how a run ends. -/
theorem outcomeIn_add (h : outcomeIn host code turns s w = some o) (more : Nat) :
    outcomeIn host code (turns + more) s w = some o := by
  induction turns generalizing s w with
  | zero => cases h
  | succ turns ih =>
    rw [Nat.succ_add]
    by_cases hfinished : s.Finished code
    · rw [outcomeIn, if_pos hfinished] at h ⊢
      exact h
    · rcases hattempt : attempt host code s w with ⟨⟨fault⟩ | ⟨⟨⟩⟩, s', w'⟩
      · rw [outcomeIn_of_error hfinished hattempt] at h ⊢
        exact h
      · rw [outcomeIn_of_ok hfinished hattempt] at h ⊢
        exact ih h

end FreeRuns

end Brainfuck
