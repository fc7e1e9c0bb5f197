/-
  Causes: why a run was asked to stop.

  One flag asks a run to stop for two reasons, an interrupt and a deadline, and a run that stops
  for either says the same.  What keeps the reasons apart is the verdict: a deadline raises the flag
  in the moment in which it becomes the verdict.  So a flag that is up has a CAUSE, an interrupt or
  a verdict that it was too late (`Scene.Caused`), and as long as there is no verdict it is an
  interrupt.

  A run whose flag is up is canceled, unless it has nothing left to do, and then it ends as it would
  have ended anyway (`Launch.run_heeding_true`).  Whatever else a run comes to, the launch comes to
  by itself.

  Both together are an invariant of scenes (`Scene.Accounted`).
-/
import Brainfuck.Proofs.Waiting

namespace Brainfuck.Cli

variable {l : Launch} {console : Console} {result : Except Fault Unit} {run : Run Word Console}

/-! ## Runs that are asked to stop -/

namespace Launch

/-- Left to itself, a launch comes to this result with this output. -/
def ComesTo (l : Launch) (console : Console) (result : Except Fault Unit) (stdout : Stdout) : Prop :=
  ∃ turns last, l.run turns (l.start console) = .ended result last ∧ last.world.stdout = stdout

theorem ComesTo.ne_canceled {stdout : Stdout} (hconsole : console.Standard)
    (h : l.ComesTo console result stdout) : result ≠ .error .canceled := by
  obtain ⟨turns, last, hrun, -⟩ := h
  exact Launch.ne_canceled hconsole hrun

theorem run_one (l : Launch) (run : Run Word Console) :
    l.run 1 run = l.engine.tick l.control run := by
  show l.engine.run l.control 1 run = _
  rw [Engine.run]
  cases l.engine.tick l.control run <;> rfl

/-- A launch closes its output in the same way whether it is asked to stop or not. -/
theorem exists_close (hstandard : run.world.Standard) (l : Launch) :
    ∃ closing stdout, ∀ flag, l.engine.close (Scene.heeding flag run).world
      = (closing, { run.world with stdout, canceled := flag }) := by
  rw [engine]
  split
  · exact ⟨.ok (), run.world.stdout, fun _ => rfl⟩
  · obtain ⟨stdin, stdout, hworld⟩ := hstandard
    refine ⟨stdout.flush.1, stdout.flush.2, ?_⟩
    intro flag
    rw [Scene.heeding, hworld]
    rfl

/-- **A run whose flag is up is canceled, unless it has nothing left to do**; then it ends as it
    would have ended anyway. -/
theorem run_heeding_true (hstandard : run.world.Standard) :
    (∃ last, l.run 1 (Scene.heeding true run) = .ended (.error .canceled) last)
      ∨ ∃ result last last', l.run 1 run = .ended result last
        ∧ l.run 1 (Scene.heeding true run) = .ended result last'
        ∧ last'.world.stdout = last.world.stdout := by
  rw [run_one, run_one]
  by_cases hfinished : run.state.Finished l.engine.code
  · obtain ⟨closing, stdout, hclose⟩ := l.exists_close hstandard
    have hself := hclose false
    rw [Scene.heeding_eq_self hstandard] at hself
    have hdown : l.engine.Turn l.control run _ := .finished hfinished hself
    have hup : l.engine.Turn l.control (Scene.heeding true run) _ :=
      .finished hfinished (hclose true)
    exact .inr ⟨_, _, _, hdown.tick_eq, hup.tick_eq, rfl⟩
  · have hup : l.engine.Turn l.control (Scene.heeding true run) _ := .canceled hfinished rfl
    exact .inl ⟨_, hup.tick_eq⟩

end Launch

/-! ## Scenes -/

namespace Scene

variable {s t : Scene}

/-- There is a reason for the run to stop. -/
def Caused (s : Scene) : Prop := s.interrupted = true ∨ s.verdict = some .timedOut

/-- The one reason that there is without a verdict. -/
theorem Caused.interrupted (h : s.Caused) (hverdict : s.verdict = none) : s.interrupted = true := by
  rcases h with hinterrupted | htimedOut
  · exact hinterrupted
  · nomatch hverdict.symm.trans htimedOut

/-- A reason does not go away. -/
theorem Step.caused (h : Step l s t) (hs : s.Caused) : t.Caused := by
  cases h with
  | work | expire => exact hs
  | interrupt => exact .inl rfl
  | receive _ _ _ hverdict => exact .inl (hs.interrupted hverdict)
  | giveUp _ hverdict _ => exact .inl (hs.interrupted hverdict)

/-- Everything that has come about in a scene has its reason. -/
structure Accounted (l : Launch) (console : Console) (s : Scene) : Prop where
  stopRequested : s.stopRequested = true → s.Caused
  interrupted : s.verdict = some .interrupted → s.interrupted = true
  /-- A verdict on a result is on the result of the run. -/
  finished : ∀ result, s.verdict = some (.finished result) → ∃ run, s.work = .ended result run
  /-- A run that is going on is the launch by itself, -/
  running : ∀ run, s.work = .running run → ∃ turns, l.run turns (l.start console) = .running run
  /-- and one that has ended was canceled for a reason or is the launch by itself as well. -/
  ended : ∀ result run, s.work = .ended result run →
    result = .error .canceled ∧ s.Caused ∨ l.ComesTo console result run.world.stdout

theorem accounted_opening (l : Launch) (console : Console) :
    (opening l console).Accounted l console where
  stopRequested h := nomatch h
  interrupted h := nomatch h
  finished _ h := nomatch h
  running _ h := ⟨0, h⟩
  ended _ _ h := nomatch h

/-- A turn has its reason. -/
theorem Accounted.work (hconsole : console.Standard) (hs : s.Accounted l console)
    (hrunning : s.work = .running run) :
    ({ s with work := l.run 1 (heeding s.stopRequested run) } : Scene).Accounted l console := by
  obtain ⟨turns, hturns⟩ := hs.running run hrunning
  have hstandard := Launch.standard_of_running hconsole hturns
  -- The turn that the launch would take by itself.
  have hown := Launch.run_succ_of_running hturns
  have hopen (result : Except Fault Unit) : s.verdict ≠ some (.finished result) := by
    intro hverdict
    obtain ⟨_, hended⟩ := hs.finished result hverdict
    nomatch hended.symm.trans hrunning
  refine ⟨hs.stopRequested, hs.interrupted, fun result h => absurd h (hopen result), ?_, ?_⟩
  · intro next hnext
    have hnext : l.run 1 (heeding s.stopRequested run) = .running next := hnext
    cases hstop : s.stopRequested with
    | false =>
      rw [hstop, heeding_eq_self hstandard] at hnext
      exact ⟨turns + 1, hown.trans hnext⟩
    | true =>
      -- A run whose flag is up does not go on.
      rw [hstop] at hnext
      rcases Launch.run_heeding_true hstandard with ⟨_, hended⟩ | ⟨_, _, _, -, hended, -⟩
      · nomatch hnext.symm.trans hended
      · nomatch hnext.symm.trans hended
  · intro result last hlast
    have hlast : l.run 1 (heeding s.stopRequested run) = .ended result last := hlast
    cases hstop : s.stopRequested with
    | false =>
      rw [hstop, heeding_eq_self hstandard] at hlast
      exact .inr ⟨turns + 1, last, hown.trans hlast, rfl⟩
    | true =>
      rw [hstop] at hlast
      rcases Launch.run_heeding_true hstandard with ⟨_, hended⟩ | ⟨_, own, _, hdown, hended, hout⟩
      · obtain ⟨rfl, rfl⟩ := Progress.ended.inj (hlast.symm.trans hended)
        exact .inl ⟨rfl, hs.stopRequested hstop⟩
      · obtain ⟨rfl, rfl⟩ := Progress.ended.inj (hlast.symm.trans hended)
        exact .inr ⟨turns + 1, own, hown.trans hdown, hout.symm⟩

/-- **A step keeps everything accounted for.** -/
theorem Accounted.step (hconsole : console.Standard) (hs : s.Accounted l console)
    (h : Step l s t) : t.Accounted l console := by
  have hended (result : Except Fault Unit) (run : Run Word Console)
      (hwork : s.work = .ended result run) :
      result = .error .canceled ∧ t.Caused ∨ l.ComesTo console result run.world.stdout := by
    rcases hs.ended result run hwork with ⟨hcanceled, hcaused⟩ | hown
    · exact .inl ⟨hcanceled, h.caused hcaused⟩
    · exact .inr hown
  cases h with
  | work run hrunning => exact hs.work hconsole hrunning
  | interrupt => exact ⟨fun _ => .inl rfl, fun _ => rfl, hs.finished, hs.running, hended⟩
  | expire => exact ⟨hs.stopRequested, hs.interrupted, hs.finished, hs.running, hended⟩
  | receive result run hwork hverdict =>
    refine ⟨fun hstop => .inl ((hs.stopRequested hstop).interrupted hverdict),
      fun h => (nomatch h), ?_, hs.running, hended⟩
    rintro _ ⟨⟩
    exact ⟨run, hwork⟩
  | giveUp verdict hverdict hpoll =>
    cases hstop : s.stopRequested with
    | true =>
      rw [hstop] at hpoll
      obtain rfl : Verdict.interrupted = verdict := Option.some.inj hpoll
      have hinterrupted := (hs.stopRequested hstop).interrupted hverdict
      exact ⟨fun _ => .inl hinterrupted, fun _ => hinterrupted, fun _ h => (nomatch h), hs.running,
        hended⟩
    | false =>
      cases hlate : s.deadlinePassed with
      | false =>
        rw [hstop, hlate] at hpoll
        nomatch hpoll
      | true =>
        rw [hstop, hlate] at hpoll
        obtain rfl : Verdict.timedOut = verdict := Option.some.inj hpoll
        exact ⟨fun _ => .inr rfl, fun h => (nomatch h), fun _ h => (nomatch h), hs.running, hended⟩

/-- **Everything in a scene has its reason.** -/
theorem Reachable.accounted (hconsole : console.Standard) (h : Reachable l (opening l console) s) :
    s.Accounted l console := by
  induction h with
  | here => exact accounted_opening l console
  | step _ hstep ih => exact ih.step hconsole hstep

end Scene

end Brainfuck.Cli
