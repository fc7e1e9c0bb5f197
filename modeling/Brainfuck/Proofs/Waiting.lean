/-
  Waiting: what becomes of a run that is left to itself.

  A scene is UNDISTURBED if no interrupt has arrived and no deadline has passed.  Neither can be
  taken back, so all scenes on the way to an undisturbed one are undisturbed too
  (`Step.undisturbed`), and three things are true of it (`Scene.Left`):

  1. nobody has asked the run to stop;
  2. its work is the launch after some number of turns, as if nobody had waited for it;
  3. a verdict, if there is one, is the result of that work.

  And a run that ends is waited for to its end: as long as nothing disturbs the scene, each of its
  turns brings it nearer to a verdict, and there is nothing else to be done (`Left.settles`).
-/
import Brainfuck.Cli.Waiting
import Brainfuck.Proofs.Rehearsal
import Brainfuck.Proofs.Streams

namespace Brainfuck

/-- A rehearsal prints, and does nothing else to the streams. -/
theorem Console.keeps_standard_printing (code : Code) :
    (Session.printing code : Engine Word Console).Keeps Console.Standard where
  attempt := by
    rintro _ ⟨stdin, stdout, rfl⟩ steps s
    have hprinted : Console.Printed { stdin, stdout } { stdin, stdout } := ⟨stdout, rfl⟩
    obtain ⟨_, hattempt, stdout', rfl⟩ := printing_attempt_eq hprinted code s steps
    rw [hattempt]
    exact ⟨stdin, stdout', rfl⟩
  close h := h

namespace Cli

variable {l : Launch} {console : Console}

namespace Launch

theorem keeps_standard (l : Launch) : l.engine.Keeps Console.Standard := by
  rw [engine]
  split
  · exact Console.keeps_standard_printing l.code
  · exact Engine.keeps_real Console.alike_standard l.code

theorem standard_start (hconsole : console.Standard) (l : Launch) :
    (l.start console).world.Standard := by
  rw [start]
  split
  · obtain ⟨stdin, stdout, rfl⟩ := hconsole
    exact ⟨stdin, _, Console.print_eq _ _⟩
  · exact hconsole

/-- On standard streams nobody raises the flag, wherever the run has come to. -/
theorem standard_point (hconsole : console.Standard) (l : Launch) (turns : Nat) :
    (l.run turns (l.start console)).point.world.Standard :=
  l.keeps_standard.point l.control (l.standard_start hconsole) turns

theorem standard_of_running (hconsole : console.Standard) {turns : Nat} {run : Run Word Console}
    (h : l.run turns (l.start console) = .running run) : run.world.Standard := by
  have hpoint := l.standard_point hconsole turns
  rw [h] at hpoint
  exact hpoint

/-- A launch that is going on has one turn more to take. -/
theorem run_succ_of_running {turns : Nat} {run : Run Word Console}
    (h : l.run turns (l.start console) = .running run) :
    l.run (turns + 1) (l.start console) = l.run 1 run := by
  have hrun : l.engine.run l.control turns (l.start console) = .running run := h
  have hadd := l.engine.run_add l.control turns 1 (l.start console)
  rw [hrun] at hadd
  exact hadd

/-- Instructions fail in the place where they stand. -/
theorem position?_of_attempt {steps : Nat} {s t : State Word} {w w' : Console} {fault : Fault}
    (h : l.engine.attempt steps s w = ⟨.error fault, t, w'⟩) : fault.position? = some s.ip := by
  rw [engine] at h
  split at h
  · exact position?_of_rehearse_error (rehearse_of_rehearsal_attempt h)
  · exact (attempt_eq_error h).2

/-- **A run that nobody cancels does not end canceled.** -/
theorem ne_canceled (hconsole : console.Standard) {turns : Nat} {result : Except Fault Unit}
    {last : Run Word Console} (h : l.run turns (l.start console) = .ended result last) :
    result ≠ .error .canceled := by
  obtain ⟨m, point, hpoint, hturn⟩ := Engine.exists_of_run_eq_ended h
  intro hresult
  generalize hended : Progress.ended result last = progress at hturn
  cases hturn with
  | @finished closing _ _ _ =>
    obtain ⟨rfl, -⟩ := Progress.ended.inj hended
    cases closing <;> nomatch hresult
  | canceled _ hcanceled =>
    have hstandard := l.standard_point hconsole m
    rw [Launch.run, hpoint] at hstandard
    obtain ⟨stdin, stdout, hworld⟩ : point.world.Standard := hstandard
    rw [hworld] at hcanceled
    nomatch hcanceled
  | limited _ _ _ _ =>
    obtain ⟨rfl, -⟩ := Progress.ended.inj hended
    nomatch hresult
  | failed _ _ hattempt =>
    obtain ⟨rfl, -⟩ := Progress.ended.inj hended
    obtain rfl := Except.error.inj hresult
    nomatch position?_of_attempt hattempt
  | succeeded _ _ _ => nomatch hended

end Launch

namespace Scene

variable {s t : Scene}

/-- A run that is not asked to stop, on streams on which nobody was, is heeding nothing new. -/
theorem heeding_eq_self {run : Run Word Console} (h : run.world.Standard) :
    heeding false run = run := by
  obtain ⟨stdin, stdout, hworld⟩ := h
  rw [heeding, hworld]
  show { run with world := { stdin, stdout } } = run
  rw [← hworld]

/-! ## Undisturbed scenes -/

/-- No interrupt has arrived and no deadline has passed. -/
structure Undisturbed (s : Scene) : Prop where
  interrupted : s.interrupted = false
  deadlinePassed : s.deadlinePassed = false

/-- What has disturbed a scene cannot be taken back. -/
theorem Step.undisturbed (h : Step l s t) (ht : t.Undisturbed) : s.Undisturbed := by
  cases h with
  | work | receive | giveUp => exact ⟨ht.interrupted, ht.deadlinePassed⟩
  | interrupt => nomatch ht.interrupted
  | expire => nomatch ht.deadlinePassed

/-- A launch on this console, left to itself. -/
structure Left (l : Launch) (console : Console) (s : Scene) : Prop where
  stopRequested : s.stopRequested = false
  work : ∃ turns, s.work = l.run turns (l.start console)
  verdict : ∀ verdict, s.verdict = some verdict →
    ∃ result run, verdict = .finished result ∧ s.work = .ended result run

theorem left_opening (l : Launch) (console : Console) : (opening l console).Left l console where
  stopRequested := rfl
  work := ⟨0, rfl⟩
  verdict := fun _ h => nomatch h

/-- A turn of a run that is left to itself is one turn more of the launch. -/
theorem Left.run_heeding (hconsole : console.Standard) (hs : s.Left l console) {turns : Nat}
    {run : Run Word Console} (hwork : s.work = l.run turns (l.start console))
    (hrunning : s.work = .running run) :
    l.run 1 (heeding s.stopRequested run) = l.run (turns + 1) (l.start console) := by
  have hrun : l.run turns (l.start console) = .running run := hwork.symm.trans hrunning
  rw [hs.stopRequested, heeding_eq_self (Launch.standard_of_running hconsole hrun)]
  exact (Launch.run_succ_of_running hrun).symm

/-- **A step without disturbance leaves the run to itself.** -/
theorem Left.step (hconsole : console.Standard) (hs : s.Left l console) (h : Step l s t)
    (ht : t.Undisturbed) : t.Left l console := by
  have hundisturbed := h.undisturbed ht
  obtain ⟨turns, hturns⟩ := hs.work
  cases h with
  | work run hrunning =>
    refine ⟨hs.stopRequested, ⟨turns + 1, hs.run_heeding hconsole hturns hrunning⟩, ?_⟩
    -- There is no verdict on a run that is going on.
    intro verdict hverdict
    obtain ⟨_, _, -, hended⟩ := hs.verdict verdict hverdict
    nomatch hended.symm.trans hrunning
  | interrupt => nomatch ht.interrupted
  | expire => nomatch ht.deadlinePassed
  | receive result run hended _ =>
    refine ⟨hs.stopRequested, ⟨turns, hturns⟩, ?_⟩
    rintro _ ⟨⟩
    exact ⟨result, run, rfl, hended⟩
  | giveUp verdict _ hpoll =>
    rw [hs.stopRequested, hundisturbed.deadlinePassed] at hpoll
    nomatch hpoll

/-- **An undisturbed scene is a launch left to itself.** -/
theorem Reachable.left (hconsole : console.Standard)
    (h : Reachable l (opening l console) s) (hs : s.Undisturbed) : s.Left l console := by
  induction h with
  | here => exact left_opening l console
  | step _ hstep ih => exact (ih (hstep.undisturbed hs)).step hconsole hstep hs

/-! ## Waiting to the end -/

/-- However the scene goes on without disturbance, it comes to a verdict; and until then it does
    go on. -/
inductive Settles (l : Launch) : Scene → Prop
  | verdict {s : Scene} {verdict : Verdict} (h : s.verdict = some verdict) : Settles l s
  | step {s next : Scene} (hnext : Step l s next) (hundisturbed : next.Undisturbed)
      (h : ∀ t, Step l s t → t.Undisturbed → Settles l t) : Settles l s

/-- A result that has come is received. -/
theorem settles_of_ended {result : Except Fault Unit} {run : Run Word Console}
    (hs : s.Undisturbed) (hwork : s.work = .ended result run) (hverdict : s.verdict = none) :
    Settles l s := by
  refine .step (.receive s result run hwork hverdict) ⟨hs.interrupted, hs.deadlinePassed⟩ ?_
  intro t hstep ht
  cases hstep with
  | work _ hrunning => nomatch hwork.symm.trans hrunning
  | interrupt => nomatch ht.interrupted
  | expire => nomatch ht.deadlinePassed
  | receive => exact .verdict rfl
  | giveUp => exact .verdict rfl

/-- **A run that ends is waited for to its end.** -/
theorem Left.settles (hconsole : console.Standard) (hs : s.Left l console)
    (hundisturbed : s.Undisturbed) {turns : Nat} {result : Except Fault Unit}
    {last : Run Word Console} (hends : l.run turns (l.start console) = .ended result last) :
    Settles l s := by
  obtain ⟨n, hwork⟩ := hs.work
  -- By induction on the turns that are left.
  induction hleft : turns - n using Nat.strongRecOn generalizing s n with
  | ind left ih =>
    cases hverdict : s.verdict with
    | some verdict => exact .verdict hverdict
    | none =>
      cases hrun : s.work with
      | ended result' run => exact settles_of_ended hundisturbed hrun hverdict
      | running run =>
        have hlt : n < turns := by
          apply Nat.lt_of_not_le
          intro hle
          have hended : l.run n (l.start console) = _ := Engine.run_of_ended hends hle
          nomatch hrun.symm.trans (hwork.trans hended)
        refine .step (.work s run hrun) ⟨hundisturbed.interrupted, hundisturbed.deadlinePassed⟩ ?_
        intro t hstep ht
        have hnext := hs.step hconsole hstep ht
        cases hstep with
        | work run' hrunning =>
          have hmore := hs.run_heeding hconsole hwork hrunning
          exact ih (turns - (n + 1)) (by omega) hnext ht (n + 1) hmore rfl
        | interrupt => nomatch ht.interrupted
        | expire => nomatch ht.deadlinePassed
        | receive _ _ hended _ => nomatch hrun.symm.trans hended
        | giveUp => exact .verdict rfl

end Scene

end Cli

end Brainfuck
