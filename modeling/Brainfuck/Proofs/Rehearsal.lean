/-
  Rehearsals: a rehearsal goes as the run does whose input is at its end.

  1. Instruction by instruction (`attempt_eq_rehearse`).  With hooks installed a byte that is
     written is always taken, so to the machine it makes no difference whether `.` is carried out
     or suppressed; and a line that is not there stores zero, which is what a rehearsal stores.
  2. Turn by turn: the run and the rehearsal are in lockstep (`rehearsal_inStep`), provided that
     the flag stays as it is during the run.  It does during a rehearsal, of which the console
     gets nothing but rows on its standard output.
-/
import Brainfuck.Proofs.Advance
import Brainfuck.Proofs.Lockstep

namespace Brainfuck

variable {α : Type} [Cell α] {σ : Type} {host : Host σ} {installed : σ → Prop} {w : σ}

/-! ## One instruction -/

/-- In these worlds there is nothing to read. -/
def Host.Silent (host : Host σ) (installed : σ → Prop) : Prop :=
  ∀ w, installed w → (host.readLine w).1 = .ok none

/-- Without a line to read, nothing is lost by suppressing input and output. -/
theorem perform_eq_suppress (hooked : host.Hooked installed) (silent : host.Silent installed)
    (hw : installed w) (e : Effect α) :
    ∃ w', e.perform host w = ⟨e.suppress.1, e.suppress.2, w'⟩ := by
  cases e with
  | done next => exact ⟨w, rfl⟩
  | emit byte here =>
    obtain ⟨w', hwrite, -⟩ := hooked.write byte w hw
    refine ⟨w', ?_⟩
    rw [Effect.perform, hwrite]
    rfl
  | ask here =>
    refine ⟨(host.readLine w).2, ?_⟩
    have hread : host.readLine w = (.ok none, (host.readLine w).2) :=
      Prod.ext (silent w hw) rfl
    rw [Effect.perform, hread]
    rfl
  | fault cause here => exact ⟨w, rfl⟩

theorem attempt_eq_rehearse (hooked : host.Hooked installed) (silent : host.Silent installed)
    (hw : installed w) (code : Code) (s : State α) :
    ∃ w', attempt host code s w = ⟨(rehearse code s).1, (rehearse code s).2, w'⟩ := by
  rw [attempt, rehearse]
  split
  · exact ⟨w, rfl⟩
  · exact perform_eq_suppress hooked silent hw _

/-- A collector is installed, and a script with nothing in it. -/
def Console.Mute (console : Console) : Prop :=
  console.collecting = true ∧ console.script = some []

theorem Console.hooked_mute : Console.host.Hooked Console.Mute where
  write byte console h := by
    obtain ⟨w', hwrite, -⟩ := Console.hooked_host.write byte console h.1
    refine ⟨w', hwrite, ?_⟩
    have hwrite : console.write byte = _ := hwrite
    rw [Console.write, if_pos h.1] at hwrite
    obtain ⟨-, rfl⟩ := Prod.mk.inj hwrite
    exact h
  readLine console h := by
    refine ⟨Console.hooked_host.readLine console h.1, ?_⟩
    show (console.readLine).2.script = some []
    rw [Console.readLine, h.2]
    rfl
  flush console h := Console.hooked_host.flush console h.1

theorem Console.silent_mute : Console.host.Silent Console.Mute := by
  intro console h
  show (console.readLine).1 = .ok none
  rw [Console.readLine, h.2]
  rfl

/-! ## Turns -/

/-- Printing does nothing to a console but to its standard output. -/
theorem Console.print_eq (text : String) (c : Console) :
    c.print text = { c with stdout := c.stdout.print text } :=
  rfl

/-- The console, but for what has been printed. -/
def Console.Printed (first console : Console) : Prop :=
  ∃ stdout, console = { first with stdout }

theorem Console.Printed.print {first console : Console} (h : first.Printed console)
    (text : String) : first.Printed (console.print text) := by
  obtain ⟨stdout, rfl⟩ := h
  exact ⟨_, Console.print_eq text _⟩

/-- An instruction of a printing rehearsal does to the machine what rehearsing does, and prints
    at most a row. -/
theorem printing_attempt_eq {first console : Console} (hprinted : first.Printed console)
    (code : Code) (s : State α) (steps : Nat) :
    ∃ console', (Session.printing code).attempt steps s console
        = ⟨(rehearse code s).1, (rehearse code s).2, console'⟩
      ∧ first.Printed console' := by
  obtain ⟨console', hattempt, hlogged⟩ :=
    rehearsal_attempt_eq (fun row console => Console.print row.render console) code steps s console
  refine ⟨console', hattempt, ?_⟩
  rcases hlogged with rfl | ⟨row, rfl⟩
  · exact hprinted
  · exact hprinted.print _

/-- The control of a call in a world in which the flag stays as it is on this console. -/
def Bounds.steady (bounds : Bounds) (console : Console) : Control σ where
  limit := bounds.limit
  canceled _ := bounds.cancelable && console.canceled

/-- **A silent run and a rehearsal are in lockstep.** -/
theorem rehearsal_inStep (hooked : host.Hooked installed) (silent : host.Silent installed)
    (code : Code) (bounds : Bounds) (first : Console) :
    Engine.InStep (Engine.real host code : Engine α σ) (bounds.steady first)
      (Session.printing code) bounds.control
      fun s w t console => s = t ∧ installed w ∧ first.Printed console where
  limit := rfl
  finished := by
    rintro s w t console ⟨rfl, -, -⟩
    exact Iff.rfl
  canceled := by
    rintro s w t console ⟨-, -, stdout, rfl⟩
    rfl
  close := by
    rintro s w t console ⟨rfl, hw, hprinted⟩ -
    have hflush : (Engine.real host code : Engine α σ).close w = (.ok (), w) := hooked.flush w hw
    rw [hflush]
    exact ⟨rfl, rfl, hw, hprinted⟩
  attempt := by
    rintro s w t console ⟨rfl, hw, hprinted⟩ - steps
    have hinstalled := hooked.attempt hw code s
    obtain ⟨w', hattempt⟩ := attempt_eq_rehearse hooked silent hw code s
    obtain ⟨console', hprinting, hprinted'⟩ := printing_attempt_eq hprinted code s steps
    have hreal : (Engine.real host code : Engine α σ).attempt steps s w = _ := hattempt
    rw [hattempt] at hinstalled
    rw [hreal, hprinting]
    exact ⟨rfl, rfl, hinstalled, hprinted'⟩

/-! ## Calls -/

/-- A rehearsal of a session ends as its engine does. -/
theorem Session.ends_rehearse_iff {s next : Session α} {bounds : Bounds}
    {result : Except Fault Unit} :
    s.Ends (.rehearse bounds) result next
      ↔ ∃ o, (printing s.code).Ends bounds.control
          (Run.start s.state (s.console.print Row.header)) o
        ∧ result = o.result ∧ next = { code := s.code, state := o.state, console := o.world } := by
  constructor
  · rintro ⟨turns, h⟩
    obtain ⟨o, ho, hreply⟩ := Option.map_eq_some_iff.mp h
    obtain ⟨rfl, rfl⟩ := Prod.mk.inj hreply
    exact ⟨o, ⟨turns, ho⟩, rfl, rfl⟩
  · rintro ⟨o, ⟨turns, ho⟩, rfl, rfl⟩
    exact ⟨turns, Option.map_eq_some_iff.mpr ⟨o, ho, rfl⟩⟩

/-- **A rehearsal is a run at the end of the input.**  From the same state, with the same limit
    and with the flag raised or not for the whole call, a run whose hooks are installed and whose
    input is at its end, and a rehearsal, both run for ever or both end with the same result in
    the same state.  And of the console a rehearsal touches nothing but standard output, as long as
    it runs: no hook is called. -/
theorem rehearsal_is_silent_run (hooked : host.Hooked installed) (silent : host.Silent installed)
    (hw : installed w) (session : Session α) (bounds : Bounds) :
    ((∃ o, (Engine.real host session.code).Ends (bounds.steady session.console)
          (Run.start session.state w) o)
        ↔ ∃ result next, session.Ends (.rehearse bounds) result next)
      ∧ (∀ o result next,
        (Engine.real host session.code).Ends (bounds.steady session.console)
          (Run.start session.state w) o →
        session.Ends (.rehearse bounds) result next →
        result = o.result ∧ next.state = o.state)
      ∧ (∀ result next, session.Ends (.rehearse bounds) result next →
        next.code = session.code ∧ session.console.Printed next.console)
      ∧ ∀ turns, session.console.Printed
        (session.reached turns (.rehearse bounds)).console := by
  have hstart : session.console.Printed (session.console.print Row.header) :=
    ⟨_, Console.print_eq _ _⟩
  have hinstep := rehearsal_inStep (α := α) hooked silent session.code bounds session.console
  have hrelated := And.intro (Eq.refl session.state) (And.intro hw hstart)
  obtain ⟨hiff, hsame⟩ := hinstep.ends_iff hrelated
  have hprinted (turns : Nat) :
      session.console.Printed (session.reached turns (.rehearse bounds)).console := by
    obtain ⟨-, -, hprinted⟩ := (hinstep.run hrelated turns 0).point
    exact hprinted
  refine ⟨⟨?_, ?_⟩, ?_, ?_, hprinted⟩
  · intro h
    obtain ⟨o, ho⟩ := hiff.mp h
    exact ⟨_, _, Session.ends_rehearse_iff.mpr ⟨o, ho, rfl, rfl⟩⟩
  · rintro ⟨result, next, h⟩
    obtain ⟨o, ho, -, -⟩ := Session.ends_rehearse_iff.mp h
    exact hiff.mpr ⟨o, ho⟩
  · intro o result next ho h
    obtain ⟨o', ho', rfl, rfl⟩ := Session.ends_rehearse_iff.mp h
    obtain ⟨hresult, hstate, -, -⟩ := hsame o o' ho ho'
    exact ⟨hresult.symm, hstate.symm⟩
  · rintro result next ⟨turns, h⟩
    have hreached := hprinted turns
    rw [Session.reached_of_call h] at hreached
    exact ⟨Session.code_of_call h, hreached⟩

/-- A rehearsal that reads, skips a loop, withholds a byte and fails, told from the run. -/
theorem rehearsal_of_failing_run :
    ∃ result next,
      ({ code := Code.ofText ",[.]+.<" } : Session).Ends
        (.rehearse { limit := some 9, cancelable := true }) result next
      ∧ result = .error (.underflow 6) ∧ next.state.ip = 6 ∧ next.console.collected = #[] := by
  obtain ⟨hiff, hsame, hconsole, -⟩ := rehearsal_is_silent_run Console.hooked_mute
    Console.silent_mute (w := { collecting := true, script := some [] }) ⟨rfl, rfl⟩
    ({ code := Code.ofText ",[.]+.<" } : Session) { limit := some 9, cancelable := true }
  have hrun : (Engine.real Console.host (Code.ofText ",[.]+.<") : Engine Word Console).Ends
      (Bounds.steady { limit := some 9, cancelable := true } {})
      (Run.start State.initial { collecting := true, script := some [] })
      ⟨.error (.underflow 6), { tape := (Tape.blank.store 0).increment, ip := 6 },
        { collecting := true, script := some [], collected := #[1], asked := 1 }⟩ := ⟨9, rfl⟩
  obtain ⟨result, next, hends⟩ := hiff.mp ⟨_, hrun⟩
  obtain ⟨hresult, hstate⟩ := hsame _ _ _ hrun hends
  obtain ⟨-, stdout, hprinted⟩ := hconsole _ _ hends
  exact ⟨result, next, hends, hresult, by rw [hstate], by rw [hprinted]⟩

end Brainfuck
