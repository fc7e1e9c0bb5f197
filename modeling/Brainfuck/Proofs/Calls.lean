/-
  Calls: a program does not see how its execution is cut into calls.

  Single steps, runs, and runs that are limited or canceled may follow each other in any order.
  What they have done together is told by ONE number, that of the instructions they have
  attempted: they are as many single steps (`Returns.iterate`).

  1. `singleStep` is what a single step does to the machine and the world, whether it succeeds
     or not; so a sequence of single steps is an iteration.
  2. A call makes turns that succeed and then one that ends it (`Engine.exists_of_run_eq_ended`).
     The former are single steps, and the latter is one if an instruction fails in it and
     nothing if the call is stopped or the program is over.
  3. If no instruction has failed, then nothing that was attempted would be attempted again by a
     free run from the beginning, and that run ends like a free run of what is left
     (`Returns.ends_iff`).

  Hooks have to be installed because a run that comes to the end of the program flushes standard
  output and a single step does not.
-/
import Brainfuck.Proofs.Turns
import Brainfuck.Session
import Mathlib.Logic.Function.Iterate

namespace Brainfuck

variable {α : Type} [Cell α] {σ : Type} {host : Host σ} {code : Code} {s s' : State α}
  {w w' : σ} {m m' : State α × σ} {k n : Nat} {result : Except Fault Unit} {o : Outcome α σ}

/-! ## Single steps -/

/-- What a single step does to the machine and the world; its result is not looked at. -/
def singleStep (host : Host σ) (code : Code) (m : State α × σ) : State α × σ :=
  let o := attempt host code m.1 m.2
  (o.state, o.world)

theorem singleStep_of_attempt (h : attempt host code s w = ⟨result, s', w'⟩) :
    singleStep host code (s, w) = (s', w') := by
  rw [singleStep, h]

/-- Turns that succeed are single steps. -/
theorem iterate_of_run {first last : Run α σ}
    (h : (Engine.real host code).run .free n first = .running last) :
    (singleStep host code)^[n] (first.state, first.world) = (last.state, last.world) := by
  induction n generalizing first with
  | zero =>
    obtain rfl := Progress.running.inj h
    rfl
  | succ n ih =>
    rw [Engine.run] at h
    have hturn := (Engine.real host code).turn_tick .free first
    cases htick : (Engine.real host code).tick .free first with
    | ended result run => rw [htick] at h; cases h
    | running next =>
      rw [htick] at h hturn
      cases hturn with
      | @succeeded state world _ _ hattempt =>
        have hattempt : attempt host code first.state first.world = ⟨.ok (), state, world⟩ :=
          hattempt
        rw [Function.iterate_succ_apply, singleStep_of_attempt hattempt]
        exact ih h

/-- Single steps leave the hooks installed. -/
theorem Host.Hooked.iterate {installed : σ → Prop} (hooked : host.Hooked installed)
    (hm : installed m.2) (k : Nat) : installed ((singleStep host code)^[k] m).2 := by
  induction k with
  | zero => exact hm
  | succ k ih =>
    rw [Function.iterate_succ_apply']
    exact hooked.attempt ih code _

/-! ## Calls -/

/-- A call that executes instructions for real.  The control of a run may look at the world, so
    whatever has happened outside can cancel the run. -/
inductive RealCall (σ : Type)
  | step
  | run (control : Control σ)

/-- How many instructions a run has attempted: those that have succeeded, and the one that the
    fault belongs to. -/
def attempted (result : Except Fault Unit) (steps : Nat) : Nat :=
  match result with
  | .error fault => if fault.position?.isSome then steps + 1 else steps
  | .ok () => steps

/-- A call that is made in `m` ends with `result`, has attempted `k` instructions and leaves
    `m'`. -/
inductive Returns (host : Host σ) (code : Code) :
    RealCall σ → State α × σ → Except Fault Unit → Nat → State α × σ → Prop
  | step {s s' : State α} {w w' : σ} {result : Except Fault Unit}
      (hattempt : attempt host code s w = ⟨result, s', w'⟩) :
      Returns host code .step (s, w) result (if s.Finished code then 0 else 1) (s', w')
  | run {control : Control σ} {turns : Nat} {s : State α} {w : σ} {result : Except Fault Unit}
      {last : Run α σ}
      (hrun : (Engine.real host code).run control turns (Run.start s w) = .ended result last) :
      Returns host code (.run control) (s, w) result (attempted result last.steps)
        (last.state, last.world)

/-- Calls made one after the other end with `results` and have attempted `k` instructions
    together. -/
inductive ReturnsAll (host : Host σ) (code : Code) :
    List (RealCall σ) → State α × σ → List (Except Fault Unit) → Nat → State α × σ → Prop
  | nil {m : State α × σ} : ReturnsAll host code [] m [] 0 m
  | cons {call : RealCall σ} {calls : List (RealCall σ)} {m m' m'' : State α × σ}
      {result : Except Fault Unit} {results : List (Except Fault Unit)} {k l : Nat}
      (hcall : Returns host code call m result k m')
      (hcalls : ReturnsAll host code calls m' results l m'') :
      ReturnsAll host code (call :: calls) m (result :: results) (k + l) m''

/-- A call that is not ended by an instruction: it has nothing left to do, or it is stopped. -/
def Clean (result : Except Fault Unit) : Prop :=
  ∀ fault, result = .error fault → fault.position? = none

theorem attempted_of_clean (h : Clean result) (steps : Nat) : attempted result steps = steps := by
  rcases result with ⟨fault⟩ | ⟨⟨⟩⟩
  · have hnone := h fault rfl
    rw [attempted, hnone]
    rfl
  · rfl

/-- A call with an attempt that fails in it is ended by an instruction. -/
theorem not_clean_of_attempt {fault : Fault}
    (h : attempt host code s w = ⟨.error fault, s', w'⟩) : ¬ Clean (.error fault) := by
  intro hclean
  have hnone := hclean fault rfl
  rw [(attempt_eq_error h).2] at hnone
  cases hnone

/-! ## One call -/

section OneCall

variable {installed : σ → Prop} {call : RealCall σ}

/-- **What a run consists of**: turns of a free run, and an attempt that fails if an instruction
    has ended it. -/
theorem exists_point_of_run_eq_ended (hooked : host.Hooked installed) (hw : installed w)
    {control : Control σ} {turns : Nat} {last : Run α σ}
    (h : (Engine.real host code).run control turns (Run.start s w) = .ended result last) :
    ∃ point, (Engine.real host code).run .free point.steps (Run.start s w) = .running point
      ∧ last.steps = point.steps
      ∧ (Clean result ∧ point.state = last.state ∧ point.world = last.world
        ∨ ∃ fault, result = .error fault
          ∧ attempt host code point.state point.world
            = ⟨.error fault, last.state, last.world⟩) := by
  obtain ⟨n, point, hpoint, hturn⟩ := Engine.exists_of_run_eq_ended h
  obtain ⟨hfree, hsteps⟩ := Engine.run_free_of_run hpoint
  obtain rfl : n = point.steps := by rw [hsteps]; exact (Nat.zero_add n).symm
  have hworld : installed point.world := by
    have hinstalled : installed ((singleStep host code)^[point.steps] (s, w)).2 :=
      hooked.iterate hw point.steps
    have hiterate : (singleStep host code)^[point.steps] (s, w) = _ := iterate_of_run hfree
    rw [hiterate] at hinstalled
    exact hinstalled
  cases hturn with
  | finished _ hclose =>
    -- Nothing is held back, so closing the run changes nothing and does not fail.
    have hclose : host.flush point.world = _ := hclose
    rw [hooked.flush _ hworld] at hclose
    obtain ⟨rfl, rfl⟩ := Prod.mk.inj hclose
    refine ⟨point, hfree, rfl, .inl ⟨fun fault hfault => ?_, rfl, rfl⟩⟩
    cases hfault
  | canceled _ _ =>
    refine ⟨_, hfree, rfl, .inl ⟨fun fault hfault => ?_, rfl, rfl⟩⟩
    obtain rfl := Except.error.inj hfault
    rfl
  | limited _ _ _ _ =>
    refine ⟨_, hfree, rfl, .inl ⟨fun fault hfault => ?_, rfl, rfl⟩⟩
    obtain rfl := Except.error.inj hfault
    rfl
  | failed _ _ hattempt => exact ⟨point, hfree, rfl, .inr ⟨_, rfl, hattempt⟩⟩

/-- **A call is as many single steps as it attempts instructions.** -/
theorem Returns.iterate (hooked : host.Hooked installed) (hm : installed m.2)
    (h : Returns host code call m result k m') : (singleStep host code)^[k] m = m' := by
  cases h with
  | @step s _ w _ _ hattempt =>
    by_cases hfinished : s.Finished code
    · rw [attempt_of_finished hfinished] at hattempt
      obtain ⟨-, rfl, rfl⟩ := Outcome.mk.inj hattempt
      rw [if_pos hfinished]
      rfl
    · rw [if_neg hfinished]
      exact singleStep_of_attempt hattempt
  | @run _ _ s w _ last hrun =>
    obtain ⟨point, hfree, hsteps, hend⟩ := exists_point_of_run_eq_ended hooked hm hrun
    have hiterate : (singleStep host code)^[point.steps] (s, w) = (point.state, point.world) :=
      iterate_of_run hfree
    rcases hend with ⟨hclean, hstate, hworld⟩ | ⟨fault, rfl, hattempt⟩
    · rw [attempted_of_clean hclean, hsteps, hiterate, hstate, hworld]
    · have hcount : attempted (.error fault) last.steps = point.steps + 1 := by
        rw [attempted, (attempt_eq_error hattempt).2, hsteps]
        rfl
      rw [hcount, Function.iterate_succ_apply', hiterate, singleStep_of_attempt hattempt]

/-- A free run ends as it does after some of its turns. -/
theorem ends_iff_of_run {point : Run α σ}
    (h : (Engine.real host code).run .free n (Run.start s w) = .running point) :
    (Engine.real host code).Ends .free (Run.start point.state point.world) o
      ↔ (Engine.real host code).Ends .free (Run.start s w) o := by
  have hadd (turns : Nat) : outcomeIn host code (n + turns) s w
      = outcomeIn host code turns point.state point.world := by
    have hrun := (Engine.real host code).run_add .free n turns (Run.start s w)
    rw [h] at hrun
    have hwhole : ((Engine.real host code).run .free (n + turns) (Run.start s w)).outcome?
        = outcomeIn host code (n + turns) s w := outcome?_run_real _ _ _ _
    rw [← hwhole, ← outcome?_run_real turns point.state point.world point.steps]
    exact congrArg Progress.outcome? hrun
  constructor
  · intro hends
    obtain ⟨turns, hturns⟩ := ends_real_iff.mp hends
    exact ends_real_iff.mpr ⟨n + turns, by rw [hadd]; exact hturns⟩
  · intro hends
    obtain ⟨turns, hturns⟩ := ends_real_iff.mp hends
    refine ends_real_iff.mpr ⟨turns, ?_⟩
    rw [← hadd, Nat.add_comm]
    exact outcomeIn_add hturns n

/-- **What is left after a call that no instruction has ended** is run like the whole. -/
theorem Returns.ends_iff (hooked : host.Hooked installed) (hm : installed m.2)
    (h : Returns host code call m result k m') (hclean : Clean result) :
    (Engine.real host code).Ends .free (Run.start m'.1 m'.2) o
      ↔ (Engine.real host code).Ends .free (Run.start m.1 m.2) o := by
  cases h with
  | @step s s' w w' _ hattempt =>
    by_cases hfinished : s.Finished code
    · rw [attempt_of_finished hfinished] at hattempt
      obtain ⟨-, rfl, rfl⟩ := Outcome.mk.inj hattempt
      exact Iff.rfl
    · rcases result with ⟨fault⟩ | ⟨⟨⟩⟩
      · exact absurd hclean (not_clean_of_attempt hattempt)
      · have htick : (Engine.real host code).tick .free (Run.start s w)
            = .running { state := s', world := w', steps := 1 } :=
          Engine.tick_of_ok hfinished (Control.free_admits _) hattempt
        have hrun : (Engine.real host code).run .free 1 (Run.start s w)
            = .running { state := s', world := w', steps := 1 } := by
          rw [Engine.run, htick]
          rfl
        exact ends_iff_of_run hrun
  | @run _ _ s w _ last hrun =>
    obtain ⟨point, hfree, -, hend⟩ := exists_point_of_run_eq_ended hooked hm hrun
    rcases hend with ⟨-, hstate, hworld⟩ | ⟨fault, rfl, hattempt⟩
    · show (Engine.real host code).Ends .free (Run.start last.state last.world) o ↔ _
      rw [← hstate, ← hworld]
      exact ends_iff_of_run hfree
    · exact absurd hclean (not_clean_of_attempt hattempt)

end OneCall

/-! ## Any calls -/

section AnyCalls

variable {installed : σ → Prop} {calls : List (RealCall σ)} {results : List (Except Fault Unit)}

/-- A call leaves the hooks installed. -/
theorem Returns.stays_installed (hooked : host.Hooked installed) (hm : installed m.2)
    {call : RealCall σ} (h : Returns host code call m result k m') : installed m'.2 := by
  rw [← h.iterate hooked hm]
  exact hooked.iterate hm k

/-- Calls made one after the other are as many single steps. -/
theorem ReturnsAll.iterate (hooked : host.Hooked installed) (hm : installed m.2)
    (h : ReturnsAll host code calls m results k m') : (singleStep host code)^[k] m = m' := by
  induction h with
  | nil => rfl
  | @cons _ _ _ _ _ _ _ k l hcall _ ih =>
    rw [Nat.add_comm, Function.iterate_add_apply, hcall.iterate hooked hm]
    exact ih (hcall.stays_installed hooked hm)

/-- What is left after them is run like the whole. -/
theorem ReturnsAll.ends_iff (hooked : host.Hooked installed) (hm : installed m.2)
    (h : ReturnsAll host code calls m results k m') (hclean : ∀ result ∈ results, Clean result) :
    (Engine.real host code).Ends .free (Run.start m'.1 m'.2) o
      ↔ (Engine.real host code).Ends .free (Run.start m.1 m.2) o := by
  induction h with
  | nil => exact Iff.rfl
  | cons hcall _ ih =>
    rw [ih (hcall.stays_installed hooked hm) fun r hr => hclean r (.tail _ hr)]
    exact hcall.ends_iff hooked hm (hclean _ (.head _))

/-- **Execution does not depend on how it is cut into calls.**  With hooks installed, calls that
    have attempted `k` instructions leave the machine and the world — what was written, and what
    was asked for — as `k` single steps do.  And if none of them was ended by an instruction, then
    a run of what is left ends exactly as one run of everything does. -/
theorem calls_are_single_steps (hooked : host.Hooked installed) (hw : installed w)
    (h : ReturnsAll host code calls (s, w) results k (s', w')) :
    (singleStep host code)^[k] (s, w) = (s', w')
      ∧ ((∀ result ∈ results, Clean result) → ∀ o,
        (Engine.real host code).Ends .free (Run.start s' w') o
          ↔ (Engine.real host code).Ends .free (Run.start s w) o) := by
  constructor
  · exact h.iterate hooked hw
  · intro hclean o
    exact h.ends_iff hooked hw hclean

/-- A run that is limited, a step, a run that fails and a run of what is left, which fails at the
    same instruction. -/
theorem cut_calls_are_single_steps :
    (singleStep Console.host (Code.ofText "+.<"))^[4]
        (({ tape := Tape.blank } : State Word), { script := some [], collecting := true })
      = ({ tape := Tape.blank.increment, ip := 2 },
        { script := some [], collecting := true, collected := #[1] }) := by
  have hlimited : (Engine.real Console.host (Code.ofText "+.<")).run { limit := some 1 } 2
      (Run.start { tape := (Tape.blank : Tape Word) } { script := some [], collecting := true })
      = .ended (.error (.stepLimit 1))
        { state := { tape := Tape.blank.increment, ip := 1 }
          world := { script := some [], collecting := true }
          steps := 1 } := rfl
  have hfails : (Engine.real Console.host (Code.ofText "+.<")).run .free 1
      (Run.start { tape := (Tape.blank : Tape Word).increment, ip := 2 }
        { script := some [], collecting := true, collected := #[1] })
      = .ended (.error (.underflow 2))
        (Run.start { tape := Tape.blank.increment, ip := 2 }
          { script := some [], collecting := true, collected := #[1] }) := rfl
  have hcalls := ReturnsAll.cons (.run hlimited)
    (.cons (.step rfl) (.cons (.run hfails) (.cons (.run hfails) .nil)))
  exact (calls_are_single_steps Console.hooked_host rfl hcalls).1

end AnyCalls

/-! ## Sessions -/

section Sessions

variable {session next : Session}

/-- The steps of a session are such calls, -/
theorem Session.returns_step (session : Session) :
    Returns Console.host session.code .step (session.state, session.console) session.step.1
      (if session.state.Finished session.code then 0 else 1)
      (session.step.2.state, session.step.2.console) :=
  .step rfl

/-- and so are its runs. -/
theorem Session.returns_run {turns : Nat} {bounds : Bounds}
    (h : session.call turns (.run bounds) = some (result, next)) :
    ∃ k, Returns Console.host session.code (.run bounds.control)
      (session.state, session.console) result k (next.state, next.console) := by
  rw [Session.call, Session.ended] at h
  cases hrun : (Engine.real Console.host session.code).run bounds.control turns
      (Run.start session.state session.console) with
  | running last => rw [hrun] at h; cases h
  | ended ending last =>
    rw [hrun] at h
    obtain ⟨rfl, rfl⟩ := Prod.mk.inj (Option.some.inj h)
    exact ⟨_, .run hrun⟩

end Sessions

end Brainfuck
