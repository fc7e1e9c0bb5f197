/-
  Shadows: the accesses of two threads, put together to a scene again.

  In a scene each party acts at once, and of that the threads know nothing.  But for each of their
  actions there is one access at which it may be taken to happen:

  * a turn of the run happens when the worker LOOKS at the flag, for nobody else sees what it does
    next;
  * an interrupt happens when it is HANDLED;
  * a message is found when it is RECEIVED, and a flag is found up when the waiter ASKS.

  The deadline needs some foresight.  The waiter asks, finds the flag down, and looks at the clock;
  but the flag may go up in between, and in a scene it would then be too late for the deadline.  So
  it has to come just BEFORE the flag goes up, at a time when nobody knows yet what the clock will
  say.  Therefore two scenes are kept from there on, one with that verdict and one without, and both
  go on until the waiter has looked (`Threads.Shadowed`).

  Thus TAKING THE ACTIONS APART BRINGS NO NEW VERDICT (`Threads.Reachable.shadowed`).
-/
import Brainfuck.Cli.Threads

namespace Brainfuck.Cli

variable {l : Launch} {console : Console} {result : Except Fault Unit} {run : Run Word Console}

/-! ## Where each thread has come to -/

theorem poll_ne_finished (flag late : Bool) (result : Except Fault Unit) :
    poll flag late ≠ some (.finished result) := by
  cases flag <;> cases late <;> nofun

theorem poll_eq_timedOut {flag late : Bool} (h : poll flag late = some .timedOut) :
    flag = false ∧ late = true := by
  cases flag <;> cases late <;> first | exact ⟨rfl, rfl⟩ | nomatch h

/-- What becomes of the run if the worker takes the turn it is about to take. -/
def Worker.progress (l : Launch) : Worker → Progress Word Console
  | .looks run => .running run
  | .acts flag run => l.run 1 (Scene.heeding flag run)
  | .sends result run | .rests result run => .ended result run

theorem Worker.progress_after (l : Launch) (progress : Progress Word Console) :
    (Worker.after progress).progress l = progress := by
  cases progress <;> rfl

namespace Waiter

/-- The verdict that the waiter has come to, whether it has reported it or not. -/
def verdict? : Waiter → Option Verdict
  | .begins | .receives | .asks | .judges _ => none
  | .raises => some .timedOut
  | .reports verdict | .rests verdict => some verdict

/-- What the waiter has reported. -/
def reported (l : Launch) : Waiter → List Report
  | .rests verdict => [l.judge verdict]
  | _ => []

theorem verdict?_after (verdict : Option Verdict) : (Waiter.after verdict).verdict? = verdict := by
  rcases verdict with _ | _ | _ | _ <;> rfl

theorem reported_after (l : Launch) (verdict : Option Verdict) :
    (Waiter.after verdict).reported l = [] := by
  rcases verdict with _ | _ | _ | _ <;> rfl

/-- The verdict in a scene that has come as far.  A flag that is seen up is a verdict at once, but a
    deadline is none before the flag is raised for it. -/
def settled? : Waiter → Option Verdict
  | .begins | .receives | .asks | .judges false | .raises => none
  | .judges true => some .interrupted
  | .reports verdict | .rests verdict => some verdict

/-- The waiter has seen the flag down, and will not look at it again before the clock. -/
def isUnaware : Waiter → Bool
  | .judges false | .raises => true
  | _ => false

theorem settled?_of_isUnaware {waiter : Waiter} (h : waiter.isUnaware = true) :
    waiter.settled? = none := by
  cases waiter with
  | judges flag =>
    cases flag with
    | false => rfl
    | true => nomatch h
  | raises => rfl
  | _ => nomatch h

end Waiter

namespace Threads

variable {s t : Threads} {verdict : Option Verdict}

/-! ## Order within each thread -/

/-- Each thread has gone through its steps in their order. -/
structure InOrder (l : Launch) (s : Threads) : Prop where
  /-- A message is the result that was sent, -/
  message : ∀ result, s.message = some result → ∃ run, s.worker = .rests result run
  /-- and so is a verdict on a result. -/
  finished : ∀ result, s.waiter.verdict? = some (.finished result) →
    ∃ run, s.worker = .rests result run
  late : s.waiter.verdict? = some .timedOut → s.isLate l = true
  reports : s.reports = s.waiter.reported l

theorem inOrder_opening (l : Launch) (console : Console) (now : Nat) :
    (opening l console now).InOrder l where
  message _ h := nomatch h
  finished _ h := nomatch h
  late h := nomatch h
  reports := rfl

theorem isLate_iff :
    s.isLate l = true ↔ ∃ began ms, s.began = some began ∧ l.settings.timeoutMs = some ms
      ∧ began + ms ≤ s.now := by
  rw [isLate, Option.any_eq_true, deadline?]
  constructor
  · rintro ⟨deadline, hdeadline, hle⟩
    obtain ⟨began, hbegan, hmap⟩ := Option.bind_eq_some_iff.mp hdeadline
    obtain ⟨ms, hms, rfl⟩ := Option.map_eq_some_iff.mp hmap
    exact ⟨began, ms, hbegan, hms, of_decide_eq_true hle⟩
  · rintro ⟨began, ms, hbegan, hms, hle⟩
    refine ⟨began + ms, ?_, decide_eq_true hle⟩
    rw [hbegan, hms]
    rfl

/-- It does not become earlier. -/
theorem isLate_pass {later : Nat} (hlate : s.isLate l = true) (h : s.now ≤ later) :
    ({ s with now := later } : Threads).isLate l = true := by
  obtain ⟨began, ms, hbegan, hms, hle⟩ := isLate_iff.mp hlate
  exact isLate_iff.mpr ⟨began, ms, hbegan, hms, Nat.le_trans hle h⟩

/-- A worker that has not sent its result yet is not heard of. -/
theorem InOrder.of_busy (hs : s.InOrder l) (hbusy : ∀ result run, s.worker ≠ .rests result run)
    (worker : Worker) : ({ s with worker } : Threads).InOrder l where
  message result h := by
    obtain ⟨run, hrests⟩ := hs.message result h
    exact absurd hrests (hbusy result run)
  finished result h := by
    obtain ⟨run, hrests⟩ := hs.finished result h
    exact absurd hrests (hbusy result run)
  late := hs.late
  reports := hs.reports

/-- **A step is in order if those before it were.** -/
theorem InOrder.step (hs : s.InOrder l) (h : Step l s t) : t.InOrder l := by
  cases h with
  | look hworker =>
    refine hs.of_busy ?_ _
    intro _ _ hrests
    nomatch hworker.symm.trans hrests
  | act hworker =>
    refine hs.of_busy ?_ _
    intro _ _ hrests
    nomatch hworker.symm.trans hrests
  | @send result run hworker =>
    refine ⟨?_, ?_, hs.late, hs.reports⟩
    · rintro _ ⟨⟩
      exact ⟨run, rfl⟩
    · intro _ hverdict
      obtain ⟨_, hrests⟩ := hs.finished _ hverdict
      nomatch hworker.symm.trans hrests
  | arrive => exact ⟨hs.message, hs.finished, hs.late, hs.reports⟩
  | handle _ => exact ⟨hs.message, hs.finished, hs.late, hs.reports⟩
  | pass hpass =>
    exact ⟨hs.message, hs.finished, fun hverdict => isLate_pass (hs.late hverdict) hpass, hs.reports⟩
  | begin hwaiter | miss hwaiter | ask hwaiter =>
    refine ⟨hs.message, fun _ h => (nomatch h), fun h => (nomatch h), ?_⟩
    rw [hs.reports, hwaiter]
    rfl
  | receive hwaiter hmessage =>
    refine ⟨fun _ h => (nomatch h), ?_, fun h => (nomatch h), ?_⟩
    · rintro _ ⟨⟩
      exact hs.message _ hmessage
    · rw [hs.reports, hwaiter]
      rfl
  | @judge flag hwaiter =>
    have hverdict : (Waiter.after (poll flag (s.isLate l))).verdict? = poll flag (s.isLate l) :=
      Waiter.verdict?_after _
    refine ⟨hs.message, ?_, ?_, ?_⟩
    · intro result hfinished
      rw [hverdict] at hfinished
      exact absurd hfinished (poll_ne_finished _ _ _)
    · intro htimedOut
      rw [hverdict] at htimedOut
      exact (poll_eq_timedOut htimedOut).2
    · rw [hs.reports, hwaiter]
      exact (Waiter.reported_after l _).symm
  | raise hwaiter =>
    refine ⟨hs.message, fun _ h => (nomatch h), fun _ => hs.late (by rw [hwaiter]; rfl), ?_⟩
    rw [hs.reports, hwaiter]
    rfl
  | @report verdict hwaiter =>
    have hverdict : s.waiter.verdict? = some verdict := by
      rw [hwaiter]
      rfl
    refine ⟨hs.message, fun result h => hs.finished result (hverdict.trans h),
      fun h => hs.late (hverdict.trans h), ?_⟩
    show s.reports ++ [l.judge verdict] = [l.judge verdict]
    rw [hs.reports, hwaiter]
    rfl

/-- **Every thread goes through its steps in their order.** -/
theorem Reachable.inOrder {now : Nat} (h : Reachable l (opening l console now) s) : s.InOrder l := by
  induction h with
  | here => exact inOrder_opening l console now
  | step _ hstep ih => exact ih.step hstep

/-! ## Scenes behind the threads -/

/-- A scene in which the same has come about, with this verdict. -/
structure Shadow (l : Launch) (console : Console) (s : Threads) (verdict : Option Verdict)
    (scene : Scene) : Prop where
  reachable : Scene.Reachable l (.opening l console) scene
  work : scene.work = s.worker.progress l
  stopRequested : scene.stopRequested = s.flag
  interrupted : scene.interrupted = true → s.interrupted = true
  verdict : scene.verdict = verdict

/-- There is such a scene. -/
def Shows (l : Launch) (console : Console) (s : Threads) (verdict : Option Verdict) : Prop :=
  ∃ scene, Shadow l console s verdict scene

namespace Shows

/-- Where no part of the scene is touched, it remains as it is. -/
theorem congr (h : s.Shows l console verdict)
    (hworker : t.worker.progress l = s.worker.progress l) (hflag : t.flag = s.flag)
    (hinterrupted : s.interrupted = true → t.interrupted = true) : t.Shows l console verdict := by
  obtain ⟨scene, hscene⟩ := h
  exact ⟨scene, hscene.reachable, hscene.work.trans hworker.symm,
    hscene.stopRequested.trans hflag.symm, fun hi => hinterrupted (hscene.interrupted hi),
    hscene.verdict⟩

/-- The turn is taken when the worker looks at the flag. -/
theorem look (h : s.Shows l console verdict) (hworker : s.worker = .looks run) :
    ({ s with worker := .acts s.flag run } : Threads).Shows l console verdict := by
  obtain ⟨scene, hscene⟩ := h
  have hrunning : scene.work = .running run := by
    rw [hscene.work, hworker]
    rfl
  refine ⟨_, hscene.reachable.step (.work scene run hrunning), ?_, hscene.stopRequested,
    hscene.interrupted, hscene.verdict⟩
  show l.run 1 (Scene.heeding scene.stopRequested run) = l.run 1 (Scene.heeding s.flag run)
  rw [hscene.stopRequested]

/-- The interrupt arrives when it is handled. -/
theorem handle (h : s.Shows l console verdict) (hinterrupted : s.interrupted = true) :
    ({ s with flag := true } : Threads).Shows l console verdict := by
  obtain ⟨scene, hscene⟩ := h
  exact ⟨_, hscene.reachable.step (.interrupt scene), hscene.work, rfl, fun _ => hinterrupted,
    hscene.verdict⟩

theorem receive (h : s.Shows l console none) (hworker : s.worker = .rests result run) :
    s.Shows l console (some (.finished result)) := by
  obtain ⟨scene, hscene⟩ := h
  have hended : scene.work = .ended result run := by
    rw [hscene.work, hworker]
    rfl
  exact ⟨_, hscene.reachable.step (.receive scene result run hended hscene.verdict), hscene.work,
    hscene.stopRequested, hscene.interrupted, rfl⟩

/-- A flag that is seen up is an interrupt. -/
theorem alarm (h : s.Shows l console none) (hflag : s.flag = true) :
    s.Shows l console (some .interrupted) := by
  obtain ⟨scene, hscene⟩ := h
  have hpoll : poll scene.stopRequested scene.deadlinePassed = some .interrupted := by
    rw [hscene.stopRequested, hflag]
    rfl
  exact ⟨_, hscene.reachable.step (.giveUp scene _ hscene.verdict hpoll), hscene.work, hflag.symm,
    hscene.interrupted, rfl⟩

/-- A flag that is down can go up because it is too late. -/
theorem expire (h : s.Shows l console none) (hflag : s.flag = false)
    (htimeout : l.settings.timeoutMs.isSome) :
    ({ s with flag := true } : Threads).Shows l console (some .timedOut) := by
  obtain ⟨scene, hscene⟩ := h
  have hpoll : poll scene.stopRequested true = some .timedOut := by
    rw [hscene.stopRequested, hflag]
    rfl
  have hlate := hscene.reachable.step (.expire scene htimeout)
  exact ⟨_, hlate.step (.giveUp _ _ hscene.verdict hpoll), hscene.work, rfl, hscene.interrupted, rfl⟩

end Shows

/-- What the threads have come to, a scene can come to: with the verdict that is settled, and, if
    the flag has gone up unseen, also with the other one. -/
structure Shadowed (l : Launch) (console : Console) (s : Threads) : Prop where
  settled : s.Shows l console s.waiter.settled?
  overtaken : s.waiter.isUnaware = true → s.flag = true → l.settings.timeoutMs.isSome →
    s.Shows l console (some .timedOut)

/-- As long as the waiter does nothing and the flag stays as it is, both scenes go on. -/
theorem Shadowed.mono (hs : s.Shadowed l console) (hwaiter : t.waiter = s.waiter)
    (hflag : t.flag = s.flag)
    (h : ∀ verdict, s.Shows l console verdict → t.Shows l console verdict) :
    t.Shadowed l console where
  settled := by
    rw [hwaiter]
    exact h _ hs.settled
  overtaken := by
    rw [hwaiter, hflag]
    exact fun hunaware hup htimeout => h _ (hs.overtaken hunaware hup htimeout)

theorem shadowed_opening (l : Launch) (console : Console) (now : Nat) :
    (opening l console now).Shadowed l console where
  settled := ⟨_, .here, rfl, rfl, fun h => (nomatch h), rfl⟩
  overtaken h := nomatch h

/-- What is settled for a waiter that does this next. -/
theorem Shadowed.shows (hs : s.Shadowed l console) {waiter : Waiter} (h : s.waiter = waiter) :
    s.Shows l console waiter.settled? := by
  rw [← h]
  exact hs.settled

/-- **A step of the threads is some steps of the scene, or none.** -/
theorem Shadowed.step (horder : s.InOrder l) (hs : s.Shadowed l console) (h : Step l s t) :
    t.Shadowed l console := by
  cases h with
  | look hworker => exact hs.mono rfl rfl fun _ h => h.look hworker
  | act hworker =>
    refine hs.mono rfl rfl fun _ h => h.congr ?_ rfl id
    show (Worker.after _).progress l = _
    rw [Worker.progress_after, hworker]
    rfl
  | send hworker =>
    refine hs.mono rfl rfl fun _ h => h.congr ?_ rfl id
    rw [hworker]
    rfl
  | arrive => exact hs.mono rfl rfl fun _ h => h.congr rfl rfl fun _ => rfl
  | pass _ => exact hs.mono rfl rfl fun _ h => h.congr rfl rfl id
  | handle hinterrupted =>
    refine ⟨hs.settled.handle hinterrupted, ?_⟩
    intro hunaware _ htimeout
    cases hflag : s.flag with
    | true => exact (hs.overtaken hunaware hflag htimeout).handle hinterrupted
    | false =>
      -- The last moment at which the deadline can come before the interrupt.
      have hopen : s.Shows l console none := by
        rw [← Waiter.settled?_of_isUnaware hunaware]
        exact hs.settled
      exact (hopen.expire hflag htimeout).handle hinterrupted
  | begin hwaiter | miss hwaiter | report hwaiter =>
    exact ⟨(hs.shows hwaiter).congr rfl rfl id, fun h => (nomatch h)⟩
  | receive hwaiter hmessage =>
    obtain ⟨run, hworker⟩ := horder.message _ hmessage
    have hopen : s.Shows l console none := hs.shows hwaiter
    exact ⟨(hopen.receive hworker).congr rfl rfl id, fun h => (nomatch h)⟩
  | ask hwaiter =>
    have hopen : s.Shows l console none := hs.shows hwaiter
    cases hflag : s.flag with
    | true => exact ⟨(hopen.alarm hflag).congr rfl hflag.symm id, fun h => (nomatch h)⟩
    | false => exact ⟨hopen.congr rfl hflag.symm id, fun _ h => (nomatch h)⟩
  | @judge flag hwaiter =>
    have hsettled := hs.shows hwaiter
    cases flag with
    | true => exact ⟨hsettled.congr rfl rfl id, fun h => (nomatch h)⟩
    | false =>
      cases hlate : s.isLate l with
      | false => exact ⟨hsettled.congr rfl rfl id, fun h => (nomatch h)⟩
      | true =>
        refine ⟨hsettled.congr rfl rfl id, ?_⟩
        intro _ hflag htimeout
        exact (hs.overtaken (by rw [hwaiter]; rfl) hflag htimeout).congr rfl rfl id
  | raise hwaiter =>
    refine ⟨?_, fun h => (nomatch h)⟩
    have hlate : s.isLate l = true := horder.late (by rw [hwaiter]; rfl)
    obtain ⟨_, ms, -, hms, -⟩ := isLate_iff.mp hlate
    have htimeout : l.settings.timeoutMs.isSome := Option.isSome_of_eq_some hms
    cases hflag : s.flag with
    | false => exact (Shows.expire (hs.shows hwaiter) hflag htimeout).congr rfl rfl id
    | true => exact (hs.overtaken (by rw [hwaiter]; rfl) hflag htimeout).congr rfl hflag.symm id

/-- **Taking the actions apart brings no new verdict.** -/
theorem Reachable.shadowed {now : Nat} (h : Reachable l (opening l console now) s) :
    s.Shadowed l console := by
  induction h with
  | here => exact shadowed_opening l console now
  | step hs hstep ih => exact ih.step hs.inOrder hstep

end Threads

end Brainfuck.Cli
