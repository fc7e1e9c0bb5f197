/-
  Lockstep: two calls that go the same way, turn by turn.

  The two may run on different engines, in different worlds and with different cells; what ties
  them together is a relation between their states and worlds, `R`.  `Engine.InStep` lists what
  one turn must keep: related calls are finished together, are stopped together, and their
  instructions succeed or fail together, with the same fault, and are related again.  Then the
  calls end together, with the same result, or run for ever (`InStep.ends_iff`).

  The number of steps needs no relation of its own: both calls count it in the same way.
-/
import Brainfuck.Proofs.Turns

namespace Brainfuck

variable {α β ω ω' : Type}

/-- Two calls are both running, or have both ended in the same way, and they are related. -/
inductive Progress.Alike (R : State α → ω → State β → ω' → Prop) :
    Progress α ω → Progress β ω' → Prop
  | running {s : State α} {w : ω} {s' : State β} {w' : ω'} {steps : Nat} (h : R s w s' w') :
      Alike R (.running { state := s, world := w, steps })
        (.running { state := s', world := w', steps })
  | ended {s : State α} {w : ω} {s' : State β} {w' : ω'} {steps : Nat}
      {result : Except Fault Unit} (h : R s w s' w') :
      Alike R (.ended result { state := s, world := w, steps })
        (.ended result { state := s', world := w', steps })

/-- What one turn of two related calls must keep. -/
structure Engine.InStep (engine : Engine α ω) (control : Control ω) (engine' : Engine β ω')
    (control' : Control ω') (R : State α → ω → State β → ω' → Prop) : Prop where
  limit : control.limit = control'.limit
  finished : ∀ {s w s' w'}, R s w s' w' → (s.Finished engine.code ↔ s'.Finished engine'.code)
  canceled : ∀ {s w s' w'}, R s w s' w' → control.canceled w = control'.canceled w'
  /-- At the end of the program. -/
  close : ∀ {s w s' w'}, R s w s' w' → s.Finished engine.code →
    (engine.close w).1.mapError (Fault.io s.ip) = (engine'.close w').1.mapError (Fault.io s'.ip)
      ∧ R s (engine.close w).2 s' (engine'.close w').2
  /-- Before it. -/
  attempt : ∀ {s w s' w'}, R s w s' w' → ¬ s.Finished engine.code → ∀ steps,
    (engine.attempt steps s w).result = (engine'.attempt steps s' w').result
      ∧ R (engine.attempt steps s w).state (engine.attempt steps s w).world
        (engine'.attempt steps s' w').state (engine'.attempt steps s' w').world

namespace Engine.InStep

variable {engine : Engine α ω} {control : Control ω} {engine' : Engine β ω'}
  {control' : Control ω'} {R : State α → ω → State β → ω' → Prop} {s : State α} {w : ω}
  {s' : State β} {w' : ω'}

/-- What stops one of two related calls stops the other. -/
theorem admits (h : InStep engine control engine' control' R) (hR : R s w s' w') {steps : Nat}
    (hadmits : control.Admits { state := s, world := w, steps }) :
    control'.Admits { state := s', world := w', steps } := by
  constructor
  · rw [← hadmits.going]
    exact (h.canceled hR).symm
  · intro limit hlimit
    rw [← h.limit] at hlimit
    exact hadmits.room limit hlimit

/-- One turn. -/
theorem tick (h : InStep engine control engine' control' R) (hR : R s w s' w') (steps : Nat) :
    (engine.tick control { state := s, world := w, steps }).Alike R
      (engine'.tick control' { state := s', world := w', steps }) := by
  have hturn := engine.turn_tick control { state := s, world := w, steps }
  generalize engine.tick control { state := s, world := w, steps } = progress at hturn ⊢
  have hunfinished (hs : ¬ s.Finished engine.code) : ¬ s'.Finished engine'.code := by
    intro hs'
    exact hs ((h.finished hR).mpr hs')
  cases hturn with
  | @finished closing world hfinished hclose =>
    obtain ⟨hresult, hrelated⟩ := h.close hR hfinished
    have hclose : engine.close w = (closing, world) := hclose
    rw [hclose] at hresult hrelated
    have hturn' : engine'.Turn control' { state := s', world := w', steps } _ :=
      .finished ((h.finished hR).mp hfinished) rfl
    rw [hturn'.tick_eq, ← hresult]
    exact .ended hrelated
  | canceled hs hcanceled =>
    have hcanceled : control.canceled w = true := hcanceled
    rw [h.canceled hR] at hcanceled
    have hturn' : engine'.Turn control' { state := s', world := w', steps } _ :=
      .canceled (hunfinished hs) hcanceled
    rw [hturn'.tick_eq]
    exact .ended hR
  | limited hs hgoing hlimit hused =>
    have hgoing : control.canceled w = false := hgoing
    rw [h.canceled hR] at hgoing
    rw [h.limit] at hlimit
    have hturn' : engine'.Turn control' { state := s', world := w', steps } _ :=
      .limited (hunfinished hs) hgoing hlimit hused
    rw [hturn'.tick_eq]
    exact .ended hR
  | failed hs hadmits hattempt =>
    have hattempt : engine.attempt steps s w = _ := hattempt
    obtain ⟨hresult, hrelated⟩ := h.attempt hR hs steps
    rw [hattempt] at hresult hrelated
    rcases hattempt' : engine'.attempt steps s' w' with ⟨result, t', v'⟩
    rw [hattempt'] at hresult hrelated
    obtain rfl : Except.error _ = result := hresult
    have hturn' : engine'.Turn control' { state := s', world := w', steps } _ :=
      .failed (hunfinished hs) (h.admits hR hadmits) hattempt'
    rw [hturn'.tick_eq]
    exact .ended hrelated
  | succeeded hs hadmits hattempt =>
    have hattempt : engine.attempt steps s w = _ := hattempt
    obtain ⟨hresult, hrelated⟩ := h.attempt hR hs steps
    rw [hattempt] at hresult hrelated
    rcases hattempt' : engine'.attempt steps s' w' with ⟨result, t', v'⟩
    rw [hattempt'] at hresult hrelated
    obtain rfl : Except.ok () = result := hresult
    have hturn' : engine'.Turn control' { state := s', world := w', steps } _ :=
      .succeeded (hunfinished hs) (h.admits hR hadmits) hattempt'
    rw [hturn'.tick_eq]
    exact .running hrelated

/-- **Related calls go the same way**, however many turns they take. -/
theorem run (h : InStep engine control engine' control' R) (hR : R s w s' w') (turns steps : Nat) :
    (engine.run control turns { state := s, world := w, steps }).Alike R
      (engine'.run control' turns { state := s', world := w', steps }) := by
  induction turns generalizing s w s' w' steps with
  | zero => exact .running hR
  | succ turns ih =>
    rw [Engine.run, Engine.run]
    have htick := h.tick hR steps
    generalize engine.tick control { state := s, world := w, steps } = progress at htick ⊢
    generalize engine'.tick control' { state := s', world := w', steps } = progress' at htick ⊢
    cases htick with
    | running hnext => exact ih hnext _
    | ended hlast => exact .ended hlast

end Engine.InStep

/-- Calls that have gone the same way are related where they have come to. -/
theorem Progress.Alike.point {R : State α → ω → State β → ω' → Prop} {progress : Progress α ω}
    {progress' : Progress β ω'} (h : progress.Alike R progress') :
    R progress.point.state progress.point.world progress'.point.state progress'.point.world := by
  cases h with
  | running hR => exact hR
  | ended hR => exact hR

/-- Calls that have gone the same way have the same outcome. -/
theorem Progress.Alike.outcome {R : State α → ω → State β → ω' → Prop} {progress : Progress α ω}
    {progress' : Progress β ω'} (h : progress.Alike R progress') :
    (progress.outcome? = none ∧ progress'.outcome? = none)
      ∨ ∃ o o', progress.outcome? = some o ∧ progress'.outcome? = some o'
        ∧ o.result = o'.result ∧ R o.state o.world o'.state o'.world := by
  cases h with
  | running _ => exact .inl ⟨rfl, rfl⟩
  | ended hR => exact .inr ⟨_, _, rfl, rfl, rfl, hR⟩

/-- **Related calls end together, or both run for ever**, and if they end, then with the same
    result and related again. -/
theorem Engine.InStep.ends_iff {engine : Engine α ω} {control : Control ω}
    {engine' : Engine β ω'} {control' : Control ω'} {R : State α → ω → State β → ω' → Prop}
    (h : InStep engine control engine' control' R) {s : State α} {w : ω} {s' : State β} {w' : ω'}
    (hR : R s w s' w') :
    ((∃ o, engine.Ends control (Run.start s w) o)
        ↔ ∃ o', engine'.Ends control' (Run.start s' w') o')
      ∧ ∀ o o', engine.Ends control (Run.start s w) o →
        engine'.Ends control' (Run.start s' w') o' →
        o.result = o'.result ∧ R o.state o.world o'.state o'.world := by
  have houtcome (turns : Nat) := (h.run hR turns 0).outcome
  refine ⟨⟨?_, ?_⟩, ?_⟩
  · rintro ⟨o, turns, ho⟩
    rcases houtcome turns with ⟨hnone, -⟩ | ⟨_, o', -, ho', -⟩
    · cases hnone.symm.trans ho
    · exact ⟨o', turns, ho'⟩
  · rintro ⟨o', turns, ho'⟩
    rcases houtcome turns with ⟨-, hnone⟩ | ⟨o, _, ho, -⟩
    · cases hnone.symm.trans ho'
    · exact ⟨o, turns, ho⟩
  · intro o o' ho ho'
    obtain ⟨turns, hturns⟩ := ho
    rcases houtcome turns with ⟨hnone, -⟩ | ⟨p, p', hp, hp', hresult, hrelated⟩
    · cases hnone.symm.trans hturns
    · obtain rfl : p = o := Option.some.inj (hp.symm.trans hturns)
      have hunique : engine'.Ends control' (Run.start s' w') p' := ⟨turns, hp'⟩
      obtain rfl := ho'.unique hunique
      exact ⟨hresult, hrelated⟩

/-! ## A call beside itself -/

/-- What is true of a world and stays true, whatever instruction is attempted and when the call
    closes. -/
structure Engine.Keeps (engine : Engine α ω) (P : ω → Prop) : Prop where
  attempt : ∀ {w}, P w → ∀ (steps : Nat) (s : State α), P (engine.attempt steps s w).world
  close : ∀ {w}, P w → P (engine.close w).2

namespace Engine.Keeps

variable {engine : Engine α ω} {P : ω → Prop} {control control' : Control ω} {run : Run α ω}

/-- In worlds that are kept, controls that agree there lead the same way. -/
theorem inStep (h : engine.Keeps P) (hlimit : control.limit = control'.limit)
    (hcanceled : ∀ w, P w → control.canceled w = control'.canceled w) :
    InStep engine control engine control' fun s w t w' => s = t ∧ w = w' ∧ P w where
  limit := hlimit
  finished := by
    rintro s w t w' ⟨rfl, -, -⟩
    exact Iff.rfl
  canceled := by
    rintro s w t w' ⟨-, rfl, hw⟩
    exact hcanceled w hw
  close := by
    rintro s w t w' ⟨rfl, rfl, hw⟩ -
    exact ⟨rfl, rfl, rfl, h.close hw⟩
  attempt := by
    rintro s w t w' ⟨rfl, rfl, hw⟩ - steps
    exact ⟨rfl, rfl, rfl, h.attempt hw steps s⟩

theorem alike (h : engine.Keeps P) (hlimit : control.limit = control'.limit)
    (hcanceled : ∀ w, P w → control.canceled w = control'.canceled w) (hrun : P run.world)
    (turns : Nat) :
    (engine.run control turns run).Alike (fun s w t w' => s = t ∧ w = w' ∧ P w)
      (engine.run control' turns run) :=
  (h.inStep hlimit hcanceled).run ⟨Eq.refl run.state, Eq.refl run.world, hrun⟩ turns run.steps

theorem run_eq (h : engine.Keeps P) (hlimit : control.limit = control'.limit)
    (hcanceled : ∀ w, P w → control.canceled w = control'.canceled w) (hrun : P run.world)
    (turns : Nat) : engine.run control turns run = engine.run control' turns run := by
  have halike := h.alike hlimit hcanceled hrun turns
  generalize engine.run control turns run = progress at halike ⊢
  generalize engine.run control' turns run = progress' at halike ⊢
  cases halike with
  | running hR =>
    obtain ⟨rfl, rfl, -⟩ := hR
    rfl
  | ended hR =>
    obtain ⟨rfl, rfl, -⟩ := hR
    rfl

/-- **What is kept is true wherever the call has come to.** -/
theorem point (h : engine.Keeps P) (control : Control ω) (hrun : P run.world) (turns : Nat) :
    P (engine.run control turns run).point.world := by
  have halike := h.alike (Eq.refl control.limit) (fun _ _ => rfl) hrun turns
  exact halike.point.2.2

end Engine.Keeps

end Brainfuck
