/-
  Cancellation: a run that is asked to stop does so behind the instruction it is at.

  The flag of a run may go up while an instruction is carried out, because it is the HOST that raises
  it: a collector that has got enough, or a script that has been asked once too often.  Only two
  instructions call on the host (`HostCall`), so these are the points in question, and at each of
  them three things might come together: the host call may fail, it may have been the last
  instruction of the program, and it may have been the last one of the allowance.

  The instruction is not torn in any case.  It has failed, and left the machine alone, or it is done
  and the pointer is behind it; only then is the flag looked at, after the end of the program and
  before the allowance (`HostCall.ends`).

  Conversely, a run that is canceled was so from the beginning, or by the very last instruction that
  it has carried out (`exists_hostCall_of_ends`): it never takes another one.
-/
import Brainfuck.Proofs.Blame
import Brainfuck.Proofs.Lockstep

namespace Brainfuck

variable {α : Type} [Cell α] {σ : Type} {host : Host σ} {installed : σ → Prop} {code : Code}
  {s : State α} {w : σ} {o : Outcome α σ} {control : Control σ}

/-! ## Calling on the host -/

/-- The instruction under the pointer calls on the host, and this is what comes of it. -/
inductive HostCall (host : Host σ) (code : Code) (s : State α) (w : σ) : Outcome α σ → Prop
  /-- A byte is delivered. -/
  | wrote {w' : σ} (hi : code.program[s.ip]? = some .output)
      (hwrite : host.write (Cell.byte s.tape.cell) w = (.ok (), w')) :
      HostCall host code s w ⟨.ok (), s.advance, w'⟩
  /-- A line, or the end of the input, is stored. -/
  | stored {line : Option String} {w' : σ} (hi : code.program[s.ip]? = some .input)
      (hread : host.readLine w = (.ok line, w')) :
      HostCall host code s w
        ⟨.ok (), { tape := s.tape.store (Line.answerCode line), ip := s.ip + 1 }, w'⟩
  /-- No line can be had, and nothing is stored. -/
  | refused {reason : String} {w' : σ} (hi : code.program[s.ip]? = some .input)
      (hread : host.readLine w = (.error reason, w')) :
      HostCall host code s w ⟨.error (.io s.ip reason), s, w'⟩

namespace HostCall

theorem attempt_eq (h : HostCall host code s w o) : attempt host code s w = o := by
  cases h with
  | wrote hi hwrite =>
    rw [attempt, hi]
    show (Effect.emit _ s).perform host w = _
    rw [Effect.perform, hwrite]
  | stored hi hread =>
    rw [attempt, hi]
    show (Effect.ask s).perform host w = _
    rw [Effect.perform, hread]
  | refused hi hread =>
    rw [attempt, hi]
    show (Effect.ask s).perform host w = _
    rw [Effect.perform, hread]

theorem unfinished (h : HostCall host code s w o) : ¬ s.Finished code := by
  have hlt {i : Instruction} (hi : code.program[s.ip]? = some i) : ¬ s.Finished code := by
    intro hfinished
    rw [Array.getElem?_eq_none hfinished] at hi
    nomatch hi
  cases h with
  | wrote hi _ => exact hlt hi
  | stored hi _ => exact hlt hi
  | refused hi _ => exact hlt hi

end HostCall

/-- What the machine does on its own is none of the world's business. -/
theorem world_perform_of_fits {e : Effect α} {i : Instruction} (hfits : e.Fits i)
    (houtput : i ≠ .output) (hinput : i ≠ .input) (w : σ) : (e.perform host w).world = w := by
  cases e with
  | done next => rfl
  | emit byte here => exact absurd hfits houtput
  | ask here => exact absurd hfits hinput
  | fault cause here => rfl

/-- **An instruction that makes a difference to the world has called on the host.** -/
theorem hostCall_of_world_ne (hooked : host.Hooked installed) (hw : installed w)
    (h : (attempt host code s w).world ≠ w) :
    HostCall host code s w (attempt host code s w) := by
  cases hi : code.program[s.ip]? with
  | none =>
    rw [attempt, hi] at h
    exact absurd rfl h
  | some i =>
    by_cases houtput : i = .output
    · obtain rfl := houtput
      obtain ⟨w', hwrite, -⟩ := hooked.write (Cell.byte s.tape.cell) w hw
      have hcall : HostCall host code s w _ := .wrote hi hwrite
      rw [hcall.attempt_eq]
      exact hcall
    · by_cases hinput : i = .input
      · obtain rfl := hinput
        rcases hread : host.readLine w with ⟨⟨reason⟩ | ⟨line⟩, w'⟩
        · have hcall : HostCall host code s w _ := .refused hi hread
          rw [hcall.attempt_eq]
          exact hcall
        · have hcall : HostCall host code s w _ := .stored hi hread
          rw [hcall.attempt_eq]
          exact hcall
      · rw [attempt, hi] at h
        exact absurd (world_perform_of_fits (effect_fits code s i) houtput hinput w) h

/-! ## Runs -/

theorem Host.Hooked.keeps (hooked : host.Hooked installed) (code : Code) :
    (Engine.real host code : Engine α σ).Keeps installed where
  attempt hw _ s := hooked.attempt hw code s
  close hw := by
    show installed (host.flush _).2
    rw [hooked.flush _ hw]
    exact hw

/-- The hooks stay installed. -/
theorem Host.Hooked.installed_of_run (hooked : host.Hooked installed) (hw : installed w)
    {turns : Nat} {point : Run α σ}
    (hpoint : (Engine.real host code).run control turns (Run.start s w) = .running point) :
    installed point.world := by
  have hkept : installed ((Engine.real host code).run control turns (Run.start s w)).point.world :=
    (hooked.keeps code).point control hw turns
  rw [hpoint] at hkept
  exact hkept

/-- How a run ends that finds its flag up: nothing is lost if there was nothing left to do. -/
def askedToStop (code : Code) (s : State α) : Except Fault Unit :=
  if s.Finished code then .ok () else .error .canceled

/-- A run that finds its flag up ends there, whatever its allowance is. -/
theorem turn_of_canceled (hooked : host.Hooked installed) {point : Run α σ}
    (hpoint : installed point.world) (hcanceled : control.canceled point.world = true) :
    (Engine.real host code).Turn control point (.ended (askedToStop code point.state) point) := by
  by_cases hfinished : point.state.Finished code
  · have hclose : (Engine.real host code : Engine α σ).close point.world = (.ok (), point.world) :=
      hooked.flush _ hpoint
    rw [askedToStop, if_pos hfinished]
    exact .finished hfinished hclose
  · rw [askedToStop, if_neg hfinished]
    exact .canceled hfinished hcanceled

/-- What a host call at which the flag goes up makes of a run: a call that has failed ends it, and
    behind one that has succeeded it is asked to stop. -/
def Outcome.thenStopped (code : Code) (o : Outcome α σ) : Outcome α σ :=
  match o.result with
  | .ok () => { o with result := askedToStop code o.state }
  | .error _ => o

/-- **A host call at which the flag goes up is the last thing that a run does**, and it is done in
    full. -/
theorem HostCall.ends (hooked : host.Hooked installed) (hw : installed w) {turns : Nat}
    {point : Run α σ}
    (hpoint : (Engine.real host code).run control turns (Run.start s w) = .running point)
    (hadmits : control.Admits point) (hcall : HostCall host code point.state point.world o)
    (hcanceled : control.canceled o.world = true) :
    (Engine.real host code).Ends control (Run.start s w) (o.thenStopped code) := by
  have hinstalled := hooked.installed_of_run hw hpoint
  have hattempt : (Engine.real host code).attempt point.steps point.state point.world = o :=
    hcall.attempt_eq
  have hnext : installed o.world := by
    rw [← hcall.attempt_eq]
    exact hooked.attempt hinstalled code point.state
  rcases o with ⟨⟨fault⟩ | ⟨⟨⟩⟩, t, v⟩
  · exact Engine.ends_of_turn hpoint (.failed hcall.unfinished hadmits hattempt)
  · -- One turn more, at the head of which the flag is found up.
    have htick : (Engine.real host code).tick control point
        = .running { state := t, world := v, steps := point.steps + 1 } :=
      Engine.tick_of_ok hcall.unfinished hadmits hattempt
    have hrun : (Engine.real host code).run control (turns + 1) (Run.start s w)
        = .running { state := t, world := v, steps := point.steps + 1 } :=
      Engine.run_succ_eq_running_iff.mpr ⟨point, hpoint, htick⟩
    exact Engine.ends_of_turn hrun (turn_of_canceled hooked hnext hcanceled)

/-- **A run is canceled from the beginning or by its last instruction**, which has called on the
    host. -/
theorem exists_hostCall_of_ends (hooked : host.Hooked installed) (hw : installed w)
    {t : State α} {v : σ}
    (h : (Engine.real host code).Ends control (Run.start s w) ⟨.error .canceled, t, v⟩) :
    control.canceled v = true ∧ ¬ t.Finished code
      ∧ (t = s ∧ v = w
        ∨ ∃ turns point, (Engine.real host code).run control turns (Run.start s w) = .running point
          ∧ control.Admits point
          ∧ HostCall host code point.state point.world ⟨.ok (), t, v⟩) := by
  obtain ⟨turns, hturns⟩ := h
  cases hrun : (Engine.real host code).run control turns (Run.start s w) with
  | running last =>
    rw [hrun] at hturns
    nomatch hturns
  | ended result last =>
    rw [hrun] at hturns
    obtain ⟨rfl, rfl, rfl⟩ := Outcome.mk.inj (Option.some.inj hturns)
    obtain ⟨j, point, hpoint, hturn⟩ := Engine.exists_of_run_eq_ended hrun
    generalize hresult : (Except.error .canceled : Except Fault Unit) = result at hturn
    cases hturn with
    | @finished closing _ _ _ => cases closing <;> nomatch hresult
    | limited _ _ _ _ => nomatch hresult
    | failed _ _ hattempt =>
      obtain rfl := Except.error.inj hresult
      nomatch (attempt_eq_error hattempt).2
    | canceled hunfinished hcanceled =>
      refine ⟨hcanceled, hunfinished, ?_⟩
      cases j with
      | zero =>
        obtain rfl := Progress.running.inj hpoint
        exact .inl ⟨rfl, rfl⟩
      | succ j =>
        obtain ⟨before, hbefore, htick⟩ := Engine.run_succ_eq_running_iff.mp hpoint
        have hturn := (Engine.real host code).turn_tick control before
        rw [htick] at hturn
        cases hturn with
        | @succeeded t v _ hadmits hattempt =>
          have hattempt : attempt host code before.state before.world = ⟨.ok (), t, v⟩ := hattempt
          -- The flag was down before the instruction, so the instruction has changed the world.
          have hne : (attempt host code before.state before.world).world ≠ before.world := by
            rw [hattempt]
            rintro rfl
            nomatch hadmits.going.symm.trans hcanceled
          have hcall := hostCall_of_world_ne hooked
            (hooked.installed_of_run hw hbefore) hne
          rw [hattempt] at hcall
          exact .inr ⟨j, before, hbefore, hadmits, hcall⟩

/-- **Cancellation is prompt and tears no instruction.**  With hooks installed, under any limit:

    * a run whose flag is up beforehand has no effect at all; it is canceled, unless its program is
      finished and it ends well;
    * wherever a run calls on the host and the flag is up afterwards, this is its last instruction.
      If it is a `,` for which no line could be had, the run ends with that fault and the machine is
      as before; otherwise the byte is delivered, or the line is stored, the pointer is behind it, and
      the run ends well if the program is finished and is canceled if it is not;
    * the flag can go up nowhere else, and a run is canceled for no other reason. -/
theorem cancellation_is_prompt (hooked : host.Hooked installed) (hw : installed w)
    (control : Control σ) (code : Code) (s : State α) :
    (control.canceled w = true →
      (Engine.real host code).Ends control (Run.start s w)
        ⟨if s.Finished code then .ok () else .error .canceled, s, w⟩)
    ∧ (∀ turns point,
      (Engine.real host code).run control turns (Run.start s w) = .running point →
      control.Admits point →
      (∀ o, HostCall host code point.state point.world o → control.canceled o.world = true →
        (Engine.real host code).Ends control (Run.start s w) (o.thenStopped code))
      ∧ (control.canceled (attempt host code point.state point.world).world = true →
        HostCall host code point.state point.world
          (attempt host code point.state point.world)))
    ∧ ∀ t v, (Engine.real host code).Ends control (Run.start s w) ⟨.error .canceled, t, v⟩ →
      control.canceled v = true ∧ ¬ t.Finished code
      ∧ (t = s ∧ v = w
        ∨ ∃ turns point, (Engine.real host code).run control turns (Run.start s w) = .running point
          ∧ control.Admits point
          ∧ HostCall host code point.state point.world ⟨.ok (), t, v⟩) := by
  refine ⟨?_, ?_, fun t v => exists_hostCall_of_ends hooked hw⟩
  · intro hcanceled
    have hturn : (Engine.real host code).Turn control (Run.start s w) _ :=
      turn_of_canceled hooked hw hcanceled
    exact Engine.ends_of_turn (n := 0) rfl hturn
  · intro turns point hpoint hadmits
    refine ⟨fun o hcall hcanceled => hcall.ends hooked hw hpoint hadmits hcanceled, ?_⟩
    intro hcanceled
    refine hostCall_of_world_ne hooked (hooked.installed_of_run hw hpoint) ?_
    intro heq
    rw [heq] at hcanceled
    nomatch hadmits.going.symm.trans hcanceled

/-- The first byte raises the flag, and is the last instruction of the allowance too: the run is
    canceled behind it, and the `<` that would fail is not attempted. -/
theorem byte_and_limit_at_once :
    (Engine.real Console.host (Code.ofText "+.<<")).Ends
      (Bounds.control { limit := some 2, cancelable := true })
      (Run.start (State.initial : State Word)
        { collecting := true, tripwire := { collected := some 1 } })
      ⟨.error .canceled, { tape := Tape.blank.increment, ip := 2 },
        { collecting := true, collected := #[1], tripwire := { collected := some 1 },
          canceled := true }⟩ := by
  obtain ⟨-, hpoints, -⟩ := cancellation_is_prompt Console.hooked_host
    (w := { collecting := true, tripwire := { collected := some 1 } }) rfl
    (Bounds.control { limit := some 2, cancelable := true }) (Code.ofText "+.<<")
    (State.initial : State Word)
  obtain ⟨hlast, -⟩ := hpoints 1
    { state := { tape := Tape.blank.increment, ip := 1 }
      world := { collecting := true, tripwire := { collected := some 1 } }
      steps := 1 } rfl ⟨rfl, by rintro _ ⟨⟩; decide⟩
  exact hlast _ (.wrote rfl rfl) rfl

end Brainfuck
