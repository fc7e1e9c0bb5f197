/-
  Interleaving: whoever acts when, what is reported is what has happened.

  A report is JUSTIFIED if what it says is true of the threads (`Threads.Justified`).  That a
  message was sent and that it is too late is seen from the order within each thread; that a run is
  canceled, or found to be, only for an interrupt is known of scenes, and there is one behind the
  threads (`Threads.Reachable.justified`).

  What a report says is a text.  Of which KIND it is can be read from its end: the caret of a
  diagnostic, the digit before the bracket of a limit, the `ms` before that of a deadline
  (`Kind.ofText`).  So no two kinds of reports read the same, and the text alone tells why it was
  printed.
-/
import Brainfuck.Proofs.Causes
import Brainfuck.Proofs.Legible
import Brainfuck.Proofs.Shadows

namespace Brainfuck.Cli

variable {l : Launch} {console : Console}

/-! ## Kinds of reports -/

/-- What is said of a run that has not ended in time. -/
def Report.late (ms : Nat) : Report :=
  { exit := 1
    stderr := "Execution aborted: wall-clock timeout exceeded (" ++ toString ms ++ " ms)\n" }

namespace Launch

/-- An interrupt is reported in one way, found by the waiter or by the worker. -/
theorem judge_interrupted (l : Launch) : l.judge .interrupted = interruption := rfl

theorem judge_canceled (l : Launch) : l.judge (.finished (.error .canceled)) = interruption := rfl

theorem judge_timedOut {ms : Nat} (h : l.settings.timeoutMs = some ms) :
    l.judge .timedOut = .late ms := by
  rw [judge, h]
  rfl

theorem judge_fault {fault : Fault} (h : fault ≠ .canceled) :
    l.judge (.finished (.error fault)) = .fault l.name l.code.source fault := by
  cases fault with
  | canceled => exact absurd rfl h
  | _ => rfl

end Launch

/-- The kinds of reports. -/
inductive Kind
  | success
  | fault
  | late
  | interrupted

/-- The kind of a report can be read from the end of its text. -/
def Kind.ofText (text : String) : Option Kind :=
  match text.toList.reverse with
  | [] => some .success
  | '\n' :: '^' :: _ => some .fault
  | '\n' :: ')' :: 's' :: _ => some .late
  | '\n' :: ')' :: _ => some .fault
  | '\n' :: 'd' :: _ => some .interrupted
  | _ => none

/-- No two kinds of reports read the same. -/
theorem Kind.eq_of_text {text text' : String} {kind kind' : Kind} (h : ofText text = some kind)
    (h' : ofText text' = some kind') (htext : text = text') : kind = kind' := by
  rw [htext] at h
  exact Option.some.inj (h.symm.trans h')

theorem Report.kind_late (ms : Nat) : Kind.ofText (late ms).stderr = some .late := by
  simp [late, Kind.ofText]

theorem Report.late_injective {ms ms' : Nat} (h : (late ms).stderr = (late ms').stderr) :
    ms = ms' := by
  have hnumber := (String.append_right_inj _).mp ((String.append_left_inj _).mp h)
  exact toString_injective hnumber

theorem kind_empty : Kind.ofText "" = some .success := rfl

theorem kind_interruption : Kind.ofText interruption.stderr = some .interrupted := rfl

theorem kind_located (message text : String) (position : Nat) :
    Kind.ofText ((Diagnostic.located message text position).render false) = some .fault := by
  simp [Diagnostic.located, Diagnostic.render, Span.render, Diagnostic.marker, Kind.ofText]

/-- A number ends with a digit. -/
theorem exists_digit (n : Nat) :
    ∃ digit rest, (Nat.toDigits 10 n).reverse = digit :: rest ∧ digit.isDigit = true := by
  have hne : Nat.toDigits 10 n ≠ [] := Nat.toDigits_ne_nil
  obtain ⟨digit, rest, heq⟩ := List.exists_cons_of_ne_nil (List.reverse_ne_nil_iff.mpr hne)
  have hmem : digit ∈ (Nat.toDigits 10 n).reverse := by
    rw [heq]
    exact List.mem_cons_self
  exact ⟨digit, rest, heq,
    Nat.isDigit_of_mem_toDigits (by decide) (by decide) (List.mem_reverse.mp hmem)⟩

theorem kind_stepLimit (name text : String) (limit : Nat) :
    Kind.ofText (Report.fault name text (.stepLimit limit)).stderr = some .fault := by
  have htext : (Report.fault name text (.stepLimit limit)).stderr
      = "" ++ (name ++ ": " ++ ("Execution aborted: step limit exceeded (" ++ toString limit ++ ")"))
        ++ "\n" := rfl
  obtain ⟨digit, rest, hdigits, hdigit⟩ := exists_digit limit
  have hne : digit ≠ 's' := by
    rintro rfl
    exact absurd hdigit (by decide)
  rw [htext]
  simp [Kind.ofText, hdigits, hne]

theorem Report.kind_fault {fault : Fault} (name text : String) (h : fault ≠ .canceled) :
    Kind.ofText (Report.fault name text fault).stderr = some .fault := by
  cases hposition : fault.position? with
  | some position =>
    simp only [Report.fault, Diagnostic.ofFault, hposition]
    exact kind_located _ text position
  | none =>
    cases fault with
    | stepLimit limit => exact kind_stepLimit name text limit
    | canceled => exact absurd rfl h
    | _ => nomatch hposition

namespace Threads

variable {s : Threads} {report : Report}

/-- A report that says what has happened. -/
inductive Justified (l : Launch) (console : Console) (s : Threads) : Report → Prop
  | success {run : Run Word Console} (hsent : s.worker = .rests (.ok ()) run)
      (hown : l.ComesTo console (.ok ()) run.world.stdout) : Justified l console s { exit := 0 }
  | fault {fault : Fault} {run : Run Word Console} (hfault : fault ≠ .canceled)
      (hsent : s.worker = .rests (.error fault) run)
      (hown : l.ComesTo console (.error fault) run.world.stdout) :
      Justified l console s (.fault l.name l.code.source fault)
  | late {began ms : Nat} (hbegan : s.began = some began) (hms : l.settings.timeoutMs = some ms)
      (hlate : began + ms ≤ s.now) : Justified l console s (.late ms)
  | interrupted (h : s.interrupted = true) : Justified l console s interruption

/-- **Whatever is reported has happened.** -/
theorem Reachable.justified {now : Nat} (hconsole : console.Standard)
    (h : Reachable l (opening l console now) s) {verdict : Verdict}
    (hrests : s.waiter = .rests verdict) : s.Justified l console (l.judge verdict) := by
  have hverdict : s.waiter.verdict? = some verdict := by
    rw [hrests]
    rfl
  obtain ⟨scene, hscene⟩ := h.shadowed.shows hrests
  have hscene' : scene.verdict = some verdict := hscene.verdict
  have haccounted := hscene.reachable.accounted hconsole
  cases verdict with
  | timedOut =>
    obtain ⟨began, ms, hbegan, hms, hlate⟩ := isLate_iff.mp (h.inOrder.late hverdict)
    rw [Launch.judge_timedOut hms]
    exact .late hbegan hms hlate
  | interrupted =>
    rw [Launch.judge_interrupted]
    exact .interrupted (hscene.interrupted (haccounted.interrupted hscene'))
  | finished result =>
    obtain ⟨run, hworker⟩ := h.inOrder.finished result hverdict
    have hended : scene.work = .ended result run := by
      rw [hscene.work, hworker]
      rfl
    rcases haccounted.ended result run hended with ⟨rfl, hinterrupted | htimedOut⟩ | hown
    · rw [Launch.judge_canceled]
      exact .interrupted (hscene.interrupted hinterrupted)
    · nomatch hscene'.symm.trans htimedOut
    · rcases result with ⟨fault⟩ | ⟨⟨⟩⟩
      · have hfault : fault ≠ .canceled := by
          rintro rfl
          exact hown.ne_canceled hconsole rfl
        rw [Launch.judge_fault hfault]
        exact .fault hfault hworker hown
      · exact .success hworker hown

/-- There are four kinds of reports, -/
theorem Justified.report_eq (h : s.Justified l console report) :
    report.exit = 0 ∧ report.stderr = "" ∨ report = interruption ∨ (∃ ms, report = .late ms)
      ∨ ∃ fault, fault ≠ .canceled ∧ report = .fault l.name l.code.source fault := by
  cases h with
  | success _ _ => exact .inl ⟨rfl, rfl⟩
  | interrupted _ => exact .inr (.inl rfl)
  | @late _ ms _ _ _ => exact .inr (.inr (.inl ⟨ms, rfl⟩))
  | @fault fault _ hfault _ _ => exact .inr (.inr (.inr ⟨fault, hfault, rfl⟩))

/-- and only an interrupt is reported as one, -/
theorem Justified.interrupted_of (h : s.Justified l console report)
    (hreport : report.exit = 130 ∨ report.stderr = interruption.stderr) : s.interrupted = true := by
  cases h with
  | interrupted h => exact h
  | success _ _ =>
    rcases hreport with hexit | htext
    · nomatch hexit
    · nomatch Kind.eq_of_text kind_empty kind_interruption htext
  | fault hfault _ _ =>
    rcases hreport with hexit | htext
    · nomatch hexit
    · nomatch Kind.eq_of_text (Report.kind_fault _ _ hfault) kind_interruption htext
  | late _ _ _ =>
    rcases hreport with hexit | htext
    · nomatch hexit
    · nomatch Kind.eq_of_text (Report.kind_late _) kind_interruption htext

/-- only a deadline that has passed is reported as one, -/
theorem Justified.late_of {ms : Nat} (h : s.Justified l console report)
    (htext : report.stderr = (Report.late ms).stderr) :
    l.settings.timeoutMs = some ms ∧ ∃ began, s.began = some began ∧ began + ms ≤ s.now := by
  cases h with
  | @late began ms' hbegan hms hlate =>
    obtain rfl : ms' = ms := Report.late_injective htext
    exact ⟨hms, began, hbegan, hlate⟩
  | success _ _ => nomatch Kind.eq_of_text kind_empty (Report.kind_late ms) htext
  | fault hfault _ _ =>
    nomatch Kind.eq_of_text (Report.kind_fault _ _ hfault) (Report.kind_late ms) htext
  | interrupted _ => nomatch Kind.eq_of_text kind_interruption (Report.kind_late ms) htext

/-- only a run that has ended well is reported as such, -/
theorem Justified.success_of (h : s.Justified l console report) (hexit : report.exit = 0) :
    ∃ run, s.worker = .rests (.ok ()) run ∧ l.ComesTo console (.ok ()) run.world.stdout := by
  cases h with
  | @success run hsent hown => exact ⟨run, hsent, hown⟩
  | fault _ _ _ => nomatch hexit
  | late _ _ _ => nomatch hexit
  | interrupted _ => nomatch hexit

/-- and only a fault that was sent is reported as one. -/
theorem Justified.fault_of {fault : Fault} (h : s.Justified l console report)
    (hfault : fault ≠ .canceled)
    (htext : report.stderr = (Report.fault l.name l.code.source fault).stderr) :
    ∃ sent run, s.worker = .rests (.error sent) run ∧ report = .fault l.name l.code.source sent
      ∧ l.ComesTo console (.error sent) run.world.stdout := by
  have hkind := Report.kind_fault l.name l.code.source hfault
  cases h with
  | @fault sent run _ hsent hown => exact ⟨sent, run, hsent, rfl, hown⟩
  | success _ _ => nomatch Kind.eq_of_text kind_empty hkind htext
  | late _ _ _ => nomatch Kind.eq_of_text (Report.kind_late _) hkind htext
  | interrupted _ => nomatch Kind.eq_of_text kind_interruption hkind htext

end Threads

open Threads

/-- **Every outcome is classified soundly, whoever acts when.**  A launch on the standard streams
    makes no report before its waiter rests, and then it has made one.  That is a success, an
    interruption, the report of a deadline or that of a fault, and it is made for its reason only:

    * with exit status 130, or with the text of an interruption, only if an interrupt has arrived;
    * with the text of a deadline only if there is a deadline, after so many milliseconds, and it
      has passed;
    * with exit status 0 only if the worker has sent that it has ended well;
    * with the text of a fault only if the worker has sent a fault of which this is the text.

    What the worker has sent in the last two cases is what the launch comes to by itself, and so is
    its output. -/
theorem waiting_is_sound (hconsole : console.Standard) {now : Nat} {s : Threads}
    (h : Reachable l (opening l console now) s) :
    ((∀ verdict, s.waiter ≠ .rests verdict) → s.reports = [])
    ∧ ∀ verdict, s.waiter = .rests verdict → ∃ report, s.reports = [report]
      ∧ (report.exit = 0 ∧ report.stderr = "" ∨ report = interruption ∨ (∃ ms, report = .late ms)
        ∨ ∃ fault, fault ≠ .canceled ∧ report = .fault l.name l.code.source fault)
      ∧ (report.exit = 130 ∨ report.stderr = interruption.stderr → s.interrupted = true)
      ∧ (∀ ms, report.stderr = (Report.late ms).stderr →
        l.settings.timeoutMs = some ms ∧ ∃ began, s.began = some began ∧ began + ms ≤ s.now)
      ∧ (report.exit = 0 → ∃ run, s.worker = .rests (.ok ()) run
        ∧ l.ComesTo console (.ok ()) run.world.stdout)
      ∧ ∀ fault, fault ≠ .canceled →
        report.stderr = (Report.fault l.name l.code.source fault).stderr →
        ∃ sent run, s.worker = .rests (.error sent) run
          ∧ report = .fault l.name l.code.source sent
          ∧ l.ComesTo console (.error sent) run.world.stdout := by
  constructor
  · intro hnone
    rw [h.inOrder.reports]
    cases hwaiter : s.waiter with
    | rests verdict => exact absurd hwaiter (hnone verdict)
    | _ => rfl
  · intro verdict hrests
    have hreports : s.reports = [l.judge verdict] := by
      rw [h.inOrder.reports, hrests]
      rfl
    have hjustified := h.justified hconsole hrests
    exact ⟨_, hreports, hjustified.report_eq, hjustified.interrupted_of,
      fun _ => hjustified.late_of, hjustified.success_of, fun _ => hjustified.fault_of⟩

/-- A program that runs for ever, if it is given the time. -/
def Launch.endless : Launch :=
  { name := "bf", code := Code.ofText "+[]", settings := { timeoutMs := some 5 } }

/-- An interrupt is handled when the waiter has just found the flag down: the worker sends that it
    is canceled, but the deadline is what is reported. -/
theorem deadline_is_reported_although_interrupted :
    ∃ s run, Reachable .endless (opening .endless {} 0) s ∧ s.interrupted = true
      ∧ s.worker = .rests (.error .canceled) run ∧ s.reports = [.late 5]
      ∧ Launch.endless.settings.timeoutMs = some 5
      ∧ ∃ began, s.began = some began ∧ began + 5 ≤ s.now := by
  have hasked : Reachable .endless (opening .endless {} 0)
      { worker := .looks (Launch.endless.start {}), waiter := .judges false, now := 0
        began := some 0 } :=
    ((Reachable.here.step (.begin _ rfl)).step (.miss _ rfl)).step (.ask _ rfl)
  have hsent : Reachable .endless (opening .endless {} 0)
      { worker := .rests (.error .canceled) (Scene.heeding true (Launch.endless.start {}))
        waiter := .judges false, message := some (.error .canceled), flag := true, interrupted := true
        now := 0, began := some 0 } :=
    ((((hasked.step (.arrive _)).step (.handle _ rfl)).step (.look _ rfl)).step (.act _ rfl)).step
      (.send _ rfl)
  have hreported : Reachable .endless (opening .endless {} 0)
      { worker := .rests (.error .canceled) (Scene.heeding true (Launch.endless.start {}))
        waiter := .rests .timedOut, message := some (.error .canceled), flag := true
        interrupted := true, now := 5, began := some 0, reports := [.late 5] } :=
    (((hsent.step (.pass _ (Nat.zero_le 5))).step (.judge _ rfl)).step (.raise _ rfl)).step
      (.report _ rfl)
  obtain ⟨report, hreports, -, -, hlate, -⟩ :=
    (waiting_is_sound ⟨[], {}, rfl⟩ hreported).2 _ rfl
  obtain rfl : Report.late 5 = report := (List.cons.inj hreports).1
  exact ⟨_, _, hreported, rfl, rfl, rfl, hlate 5 rfl⟩

end Brainfuck.Cli
