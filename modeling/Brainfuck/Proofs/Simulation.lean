/-
  Simulation: the machine that jumps runs structured programs.

  1. What the machine does at each kind of block, by a lemma for each (`attempt_enter` and so
     on).  A matched `]` and its `[` are the SAME place: with the same tape both go on behind the
     one or behind the other (`outcomeIn_partner`).  So a body that has come to its end stands
     where the loop stands, and this is what makes the two kinds of loop agree.
  2. `Block.Continues`: what the end of a run of blocks means to the machine.  Blocks that fail
     end its run; otherwise it goes on where the blocks stop.
  3. From blocks to the machine (`Runs.outcomeIn`) by induction on how the blocks are run.
  4. From the machine to blocks (`Laid.runs`) by induction on the turns it has left.  At a loop
     that is entered the induction is used twice, for the body and for the loop again, and both
     have one turn less.

  What is left is the end of the program, where nothing is flushed when hooks are installed.
-/
import Brainfuck.Proofs.Layout
import Brainfuck.Proofs.Turns

namespace Brainfuck

variable {α : Type} [Cell α] {σ : Type} {host : Host σ} {code : Code} {t t' : Tape α}
  {w w' : σ} {p q : Nat} {i : Instruction}

/-! ## The machine at a block -/

omit [Cell α] in
/-- There is an instruction to run. -/
theorem State.not_finished {s : State α} (hi : code.program[s.ip]? = some i) :
    ¬ s.Finished code :=
  Nat.not_le_of_lt (Array.getElem?_eq_some_iff.mp hi).1

theorem attempt_of_getElem? {s : State α} (hi : code.program[s.ip]? = some i) :
    attempt host code s w = (effect code s i).perform host w := by
  rw [attempt, hi]

/-- An instruction that is no bracket does not look at the code around it. -/
theorem effect_of_nesting (hplain : i.nesting = 0) (code code' : Code) (s : State α) :
    effect code s i = effect code' s i := by
  cases i with
  | loopOpen => exact absurd hplain (by decide)
  | loopClose => exact absurd hplain (by decide)
  | _ => rfl

/-- Behind an instruction that is no bracket stands the next one. -/
theorem ip_of_perform (hplain : i.nesting = 0) {s s' : State α}
    (h : (effect code s i).perform host w = ⟨.ok (), s', w'⟩) : s'.ip = s.ip + 1 := by
  cases i with
  | loopOpen => exact absurd hplain (by decide)
  | loopClose => exact absurd hplain (by decide)
  | left =>
    rw [effect] at h
    split at h
    · obtain ⟨_, rfl, _⟩ := Outcome.mk.inj h
      rfl
    · cases h
  | output =>
    rw [effect, Effect.perform] at h
    split at h
    · obtain ⟨_, rfl, _⟩ := Outcome.mk.inj h
      rfl
    · cases h
  | input =>
    rw [effect, Effect.perform] at h
    split at h
    · obtain ⟨_, rfl, _⟩ := Outcome.mk.inj h
      rfl
    · cases h
  | _ =>
    obtain ⟨_, rfl, _⟩ := Outcome.mk.inj h
    rfl

/-- A loop is entered at the first instruction of its body, -/
theorem attempt_enter (hi : code.program[p]? = some .loopOpen) (hvalue : t.value ≠ 0) :
    attempt host code { tape := t, ip := p } w = ⟨.ok (), { tape := t, ip := p + 1 }, w⟩ := by
  rw [attempt_of_getElem? hi, effect, if_neg hvalue]
  rfl

/-- or left out altogether, -/
theorem attempt_skip (hi : code.program[p]? = some .loopOpen)
    (hcloseOf : code.loops.closeOf p = .ok q) (hzero : t.value = 0) :
    attempt host code { tape := t, ip := p } w = ⟨.ok (), { tape := t, ip := q + 1 }, w⟩ := by
  rw [attempt_of_getElem? hi, effect, if_pos hzero, hcloseOf]
  rfl

/-- which is where one stands when it is over. -/
theorem attempt_leave (hi : code.program[q]? = some .loopClose) (hzero : t.value = 0) :
    attempt host code { tape := t, ip := q } w = ⟨.ok (), { tape := t, ip := q + 1 }, w⟩ := by
  rw [attempt_of_getElem? hi, effect, if_neg (not_not_intro hzero)]
  rfl

/-- A body that is run again is run from its first instruction. -/
theorem attempt_repeat (hi : code.program[q]? = some .loopClose)
    (hopenOf : code.loops.openOf q = .ok p) (hvalue : t.value ≠ 0) :
    attempt host code { tape := t, ip := q } w = ⟨.ok (), { tape := t, ip := p + 1 }, w⟩ := by
  rw [attempt_of_getElem? hi, effect, if_pos hvalue, hopenOf]
  rfl

theorem attempt_unclosed (hi : code.program[p]? = some .loopOpen)
    (hcloseOf : code.loops.closeOf p = .error ⟨p, .opening⟩) (hzero : t.value = 0) :
    attempt host code { tape := t, ip := p } w
      = ⟨.error (.unmatched p .opening), { tape := t, ip := p }, w⟩ := by
  rw [attempt_of_getElem? hi, effect, if_pos hzero, hcloseOf]
  rfl

theorem attempt_stray (hi : code.program[p]? = some .loopClose)
    (hopenOf : code.loops.openOf p = .error ⟨p, .closing⟩) (hvalue : t.value ≠ 0) :
    attempt host code { tape := t, ip := p } w
      = ⟨.error (.unmatched p .closing), { tape := t, ip := p }, w⟩ := by
  rw [attempt_of_getElem? hi, effect, if_pos hvalue, hopenOf]
  rfl

/-- **A `]` and its `[` are the same place.** -/
theorem outcomeIn_partner (hopening : code.program[p]? = some .loopOpen)
    (hclosing : code.program[q]? = some .loopClose) (hcloseOf : code.loops.closeOf p = .ok q)
    (hopenOf : code.loops.openOf q = .ok p) (turns : Nat) :
    outcomeIn host code turns { tape := t, ip := q } w
      = outcomeIn host code turns { tape := t, ip := p } w := by
  cases turns with
  | zero => rfl
  | succ turns =>
    by_cases hvalue : t.value = 0
    · rw [outcomeIn_of_ok (State.not_finished hclosing) (attempt_leave hclosing hvalue),
        outcomeIn_of_ok (State.not_finished hopening) (attempt_skip hopening hcloseOf hvalue)]
    · rw [outcomeIn_of_ok (State.not_finished hclosing) (attempt_repeat hclosing hopenOf hvalue),
        outcomeIn_of_ok (State.not_finished hopening) (attempt_enter hopening hvalue)]

namespace Block

variable {block : Block} {stop turns : Nat} {finish : Finish α σ} {o : Outcome α σ}

/-! ## From blocks to the machine -/

/-- What a finish of blocks that end at `stop` means to the machine, if it has some number of
    turns left: it goes on there, or has ended on the instruction that failed. -/
inductive Continues (host : Host σ) (code : Code) (stop turns : Nat) :
    Finish α σ → Outcome α σ → Prop
  | goesOn {t : Tape α} {w : σ} {o : Outcome α σ}
      (h : outcomeIn host code turns { tape := t, ip := stop } w = some o) :
      Continues host code stop turns ⟨.ok (), t, w⟩ o
  | ends {cause : Fault} {ip : Nat} {t : Tape α} {w : σ} (hip : cause.position? = some ip) :
      Continues host code stop turns ⟨.error cause, t, w⟩
        ⟨.error cause, { tape := t, ip }, w⟩

theorem Continues.succ (h : Continues host code stop turns finish o) :
    Continues host code stop (turns + 1) finish o := by
  cases h with
  | goesOn h => exact .goesOn (outcomeIn_add h 1)
  | ends hip => exact .ends hip

/-- Blocks that fail do not care where they would have stopped. -/
theorem Continues.of_error (h : Continues host code stop turns finish o) {cause : Fault}
    (hresult : finish.result = .error cause) (stop' turns' : Nat) :
    Continues host code stop' turns' finish o := by
  cases h with
  | goesOn _ => cases hresult
  | ends hip => exact .ends hip

/-- **The machine does what the blocks do.** -/
theorem Runs.outcomeIn (h : Runs host block t w finish) (hlaid : Laid code block p stop)
    (hcontinues : Continues host code stop turns finish o) :
    ∃ turns, outcomeIn host code turns { tape := t, ip := p } w = some o := by
  induction h generalizing p stop turns with
  | done =>
    cases hlaid
    cases hcontinues with
    | goesOn h => exact ⟨turns, h⟩
  | @simple position _ _ t w next world _ h _ ih =>
    cases hlaid with
    | simple hi hplain hrest =>
      rw [effect_of_nesting hplain .blank code] at h
      have hattempt : attempt host code { tape := t, ip := position } w
          = ⟨.ok (), next, world⟩ := by
        rw [attempt_of_getElem? hi, h]
      obtain ⟨tape, ip⟩ := next
      obtain rfl : ip = position + 1 := ip_of_perform hplain h
      exact exists_outcomeIn_of_ok (State.not_finished hi) hattempt (ih hrest hcontinues)
  | @fails position _ _ t w cause here world h =>
    cases hlaid with
    | simple hi hplain _ =>
      rw [effect_of_nesting hplain .blank code] at h
      have hattempt : attempt host code { tape := t, ip := position } w
          = ⟨.error cause, here, world⟩ := by
        rw [attempt_of_getElem? hi, h]
      obtain ⟨rfl, hposition⟩ := attempt_eq_error hattempt
      cases hcontinues with
      | ends hip =>
        rw [hip] at hposition
        obtain rfl := Option.some.inj hposition
        exact ⟨1, outcomeIn_of_error (State.not_finished hi) hattempt⟩
  | skip hzero _ ih =>
    cases hlaid with
    | loop hopening _ hcloseOf _ _ hrest =>
      exact exists_outcomeIn_of_ok (State.not_finished hopening)
        (attempt_skip hopening hcloseOf hzero) (ih hrest hcontinues)
  | again hvalue _ _ ihbody ihloop =>
    have hloop := hlaid
    cases hlaid with
    | loop hopening hclosing hcloseOf hopenOf hbody _ =>
      -- The loop that is run again stands at the `]`, where the body has come to its end.
      obtain ⟨turns, hturns⟩ := ihloop hloop hcontinues
      rw [← outcomeIn_partner hopening hclosing hcloseOf hopenOf] at hturns
      exact exists_outcomeIn_of_ok (State.not_finished hopening)
        (attempt_enter hopening hvalue) (ihbody hbody (.goesOn hturns))
  | breaks hvalue _ ihbody =>
    cases hlaid with
    | loop hopening _ _ _ hbody _ =>
      exact exists_outcomeIn_of_ok (State.not_finished hopening)
        (attempt_enter hopening hvalue) (ihbody hbody (hcontinues.of_error rfl _ turns))
  | passStray hzero _ ih =>
    cases hlaid with
    | stray hclosing _ hrest =>
      exact exists_outcomeIn_of_ok (State.not_finished hclosing)
        (attempt_leave hclosing hzero) (ih hrest hcontinues)
  | failStray hvalue =>
    cases hlaid with
    | stray hclosing hopenOf _ =>
      cases hcontinues with
      | ends hip =>
        obtain rfl := Option.some.inj hip
        exact ⟨1, outcomeIn_of_error (State.not_finished hclosing)
          (attempt_stray hclosing hopenOf hvalue)⟩
  | passUnclosed hvalue _ ih =>
    cases hlaid with
    | unclosed hopening _ hrest =>
      exact exists_outcomeIn_of_ok (State.not_finished hopening)
        (attempt_enter hopening hvalue) (ih hrest hcontinues)
  | failUnclosed hzero =>
    cases hlaid with
    | unclosed hopening hcloseOf _ =>
      cases hcontinues with
      | ends hip =>
        obtain rfl := Option.some.inj hip
        exact ⟨1, outcomeIn_of_error (State.not_finished hopening)
          (attempt_unclosed hopening hcloseOf hzero)⟩

/-! ## From the machine to blocks -/

/-- **The blocks do what the machine does**, and leave it no fewer turns than it has. -/
theorem Laid.runs (hlaid : Laid code block p stop)
    (h : Brainfuck.outcomeIn host code turns { tape := t, ip := p } w = some o) :
    ∃ finish, Runs host block t w finish ∧ Continues host code stop turns finish o := by
  induction turns generalizing block p stop t w with
  | zero => cases h
  | succ turns ih =>
    cases hlaid with
    | done => exact ⟨⟨.ok (), t, w⟩, .done, .goesOn h⟩
    | @simple _ _ i _ hi hplain hrest =>
      have heffect := effect_of_nesting hplain code .blank { tape := t, ip := p }
      rcases hattempt : attempt host code { tape := t, ip := p } w
        with ⟨⟨cause⟩ | ⟨⟨⟩⟩, next, world⟩
      · rw [outcomeIn_of_error (State.not_finished hi) hattempt] at h
        obtain rfl := Option.some.inj h
        obtain ⟨rfl, hposition⟩ := attempt_eq_error hattempt
        rw [attempt_of_getElem? hi, heffect] at hattempt
        exact ⟨_, .fails hattempt, .ends hposition⟩
      · rw [outcomeIn_of_ok (State.not_finished hi) hattempt] at h
        rw [attempt_of_getElem? hi] at hattempt
        obtain ⟨tape, ip⟩ := next
        obtain rfl : ip = p + 1 := ip_of_perform hplain hattempt
        rw [heffect] at hattempt
        obtain ⟨finish, hruns, hcontinues⟩ := ih hrest h
        exact ⟨finish, .simple hattempt hruns, hcontinues.succ⟩
    | loop hopening hclosing hcloseOf hopenOf hbody hrest =>
      by_cases hvalue : t.value = 0
      · rw [outcomeIn_of_ok (State.not_finished hopening)
          (attempt_skip hopening hcloseOf hvalue)] at h
        obtain ⟨finish, hruns, hcontinues⟩ := ih hrest h
        exact ⟨finish, .skip hvalue hruns, hcontinues.succ⟩
      · rw [outcomeIn_of_ok (State.not_finished hopening) (attempt_enter hopening hvalue)] at h
        obtain ⟨finish, hruns, hcontinues⟩ := ih hbody h
        cases hcontinues with
        | goesOn h =>
          -- At its end the body stands at the `]`, which is where the loop stands.
          rw [outcomeIn_partner hopening hclosing hcloseOf hopenOf] at h
          have hloop := Laid.loop hopening hclosing hcloseOf hopenOf hbody hrest
          obtain ⟨finish, hagain, hcontinues⟩ := ih hloop h
          exact ⟨finish, .again hvalue hruns hagain, hcontinues.succ⟩
        | ends hip => exact ⟨_, .breaks hvalue hruns, .ends hip⟩
    | stray hclosing hopenOf hrest =>
      by_cases hvalue : t.value = 0
      · rw [outcomeIn_of_ok (State.not_finished hclosing) (attempt_leave hclosing hvalue)] at h
        obtain ⟨finish, hruns, hcontinues⟩ := ih hrest h
        exact ⟨finish, .passStray hvalue hruns, hcontinues.succ⟩
      · rw [outcomeIn_of_error (State.not_finished hclosing)
          (attempt_stray hclosing hopenOf hvalue)] at h
        obtain rfl := Option.some.inj h
        exact ⟨_, .failStray hvalue, .ends rfl⟩
    | unclosed hopening hcloseOf hrest =>
      by_cases hvalue : t.value = 0
      · rw [outcomeIn_of_error (State.not_finished hopening)
          (attempt_unclosed hopening hcloseOf hvalue)] at h
        obtain rfl := Option.some.inj h
        exact ⟨_, .failUnclosed hvalue, .ends rfl⟩
      · rw [outcomeIn_of_ok (State.not_finished hopening) (attempt_enter hopening hvalue)] at h
        obtain ⟨finish, hruns, hcontinues⟩ := ih hrest h
        exact ⟨finish, .passUnclosed hvalue hruns, hcontinues.succ⟩

/-! ## Programs -/

section Programs

variable {installed : σ → Prop}

/-- Running blocks leaves the hooks installed. -/
theorem Runs.stays_installed (hooked : host.Hooked installed) (h : Runs host block t w finish)
    (hw : installed w) : installed finish.world := by
  induction h with
  | done => exact hw
  | @simple position i _ t _ _ _ _ h _ ih =>
    have hperform := hooked.perform hw (effect .blank { tape := t, ip := position } i)
    rw [h] at hperform
    exact ih hperform
  | @fails position i _ t _ _ _ _ h =>
    have hperform := hooked.perform hw (effect .blank { tape := t, ip := position } i)
    rw [h] at hperform
    exact hperform
  | skip _ _ ih => exact ih hw
  | again _ _ _ ihbody ihloop => exact ihloop (ihbody hw)
  | breaks _ _ ihbody => exact ihbody hw
  | passStray _ _ ih => exact ih hw
  | failStray _ => exact hw
  | passUnclosed _ _ ih => exact ih hw
  | failUnclosed _ => exact hw

/-- Blocks fail at an instruction. -/
theorem Runs.exists_position (h : Runs host block t w finish) {cause : Fault}
    (hresult : finish.result = .error cause) : ∃ ip, cause.position? = some ip := by
  induction h with
  | done => cases hresult
  | simple _ _ ih => exact ih hresult
  | fails h =>
    obtain rfl := Except.error.inj hresult
    exact ⟨_, (perform_eq_error (effect_concerns .blank _ _) h).2⟩
  | skip _ _ ih => exact ih hresult
  | again _ _ _ _ ihloop => exact ihloop hresult
  | breaks _ _ ihbody => exact ihbody hresult
  | passStray _ _ ih => exact ih hresult
  | failStray _ =>
    obtain rfl := Except.error.inj hresult
    exact ⟨_, rfl⟩
  | passUnclosed _ _ ih => exact ih hresult
  | failUnclosed _ =>
    obtain rfl := Except.error.inj hresult
    exact ⟨_, rfl⟩

/-- With hooks installed a run ends as it stands at the end of the program. -/
theorem outcomeIn_of_finished (hooked : host.Hooked installed) (hw : installed w) {s : State α}
    (hfinished : s.Finished code) (turns : Nat) :
    Brainfuck.outcomeIn host code (turns + 1) s w = some ⟨.ok (), s, w⟩ := by
  rw [Brainfuck.outcomeIn, if_pos hfinished, hooked.flush w hw]
  rfl

/-- **Blocks that stand in code from its first position to its end are run by the machine.** -/
theorem Laid.runs_iff (hooked : host.Hooked installed) (hw : installed w)
    (hlaid : Laid code block p code.size) :
    Runs host block t w finish ↔ ∃ turns ip,
      Brainfuck.outcomeIn host code turns { tape := t, ip := p } w
        = some ⟨finish.result, { tape := finish.tape, ip }, finish.world⟩ := by
  obtain ⟨result, tape, world⟩ := finish
  constructor
  · intro h
    have hworld : installed world := h.stays_installed hooked hw
    rcases result with ⟨cause⟩ | ⟨⟨⟩⟩
    · obtain ⟨ip, hip⟩ := h.exists_position rfl
      have hends : Continues host code code.size 0 ⟨.error cause, tape, world⟩ _ := .ends hip
      obtain ⟨turns, hturns⟩ := h.outcomeIn hlaid hends
      exact ⟨turns, ip, hturns⟩
    · have hend : State.Finished code { tape, ip := code.size } := Nat.le_refl _
      obtain ⟨turns, hturns⟩ := h.outcomeIn hlaid
        (.goesOn (outcomeIn_of_finished hooked hworld hend 0))
      exact ⟨turns, code.size, hturns⟩
  · rintro ⟨turns, ip, h⟩
    obtain ⟨found, hruns, hcontinues⟩ := hlaid.runs h
    have hfound := hruns.stays_installed hooked hw
    cases hcontinues with
    | @goesOn tape _ _ h =>
      have hend : State.Finished code { tape, ip := code.size } := Nat.le_refl _
      obtain ⟨turns, rfl⟩ := Nat.exists_eq_add_one_of_ne_zero (Nat.ne_of_gt (pos_of_outcomeIn h))
      rw [outcomeIn_of_finished hooked hfound hend] at h
      cases h
      exact hruns
    | ends _ => exact hruns

/-- **The machine that jumps implements structured programs.**  With hooks installed, a text is
    run to an end from a tape and a world if and only if its blocks are; and then the result, the
    tape and the world — what was written and what was asked for — are the same. -/
theorem machine_implements_blocks (hooked : host.Hooked installed) (hw : installed w)
    (text : String) (t : Tape α) :
    ((∃ o, (Engine.real host (Code.ofText text)).Ends .free (Run.start { tape := t } w) o)
      ↔ ∃ finish, Runs host (ofProgram 0 (Program.ofText text)) t w finish)
    ∧ ∀ o finish,
      (Engine.real host (Code.ofText text)).Ends .free (Run.start { tape := t } w) o →
      Runs host (ofProgram 0 (Program.ofText text)) t w finish →
      o.result = finish.result ∧ o.state.tape = finish.tape ∧ o.world = finish.world := by
  have hlaid := laid_ofText text
  have hends {finish : Finish α σ}
      (h : Runs host (ofProgram 0 (Program.ofText text)) t w finish) :
      ∃ ip, (Engine.real host (Code.ofText text)).Ends .free (Run.start { tape := t } w)
        ⟨finish.result, { tape := finish.tape, ip }, finish.world⟩ := by
    obtain ⟨turns, ip, hturns⟩ := (hlaid.runs_iff hooked hw).mp h
    exact ⟨ip, ends_real_iff.mpr ⟨turns, hturns⟩⟩
  refine ⟨⟨?_, ?_⟩, ?_⟩
  · rintro ⟨o, ho⟩
    obtain ⟨turns, hturns⟩ := ends_real_iff.mp ho
    exact ⟨⟨o.result, o.state.tape, o.world⟩,
      (hlaid.runs_iff hooked hw).mpr ⟨turns, o.state.ip, hturns⟩⟩
  · rintro ⟨finish, hruns⟩
    obtain ⟨ip, h⟩ := hends hruns
    exact ⟨_, h⟩
  · intro o finish ho hruns
    obtain ⟨ip, h⟩ := hends hruns
    obtain rfl := ho.unique h
    exact ⟨rfl, rfl, rfl⟩

/-- A loop, a stray bracket that is passed and one at which the run fails. -/
theorem blocks_run_to_stray_bracket :
    ∃ finish : Finish Word Console,
      Runs Console.host (ofProgram 0 (Program.ofText "+[.-]]+]")) Tape.blank
        { script := some [], collecting := true } finish
      ∧ finish.result = .error (.unmatched 7 .closing) ∧ finish.world.collected = #[1] := by
  have hmachine := machine_implements_blocks Console.hooked_host
    (w := { script := some [], collecting := true }) rfl "+[.-]]+]" (Tape.blank : Tape Word)
  have hends : (Engine.real Console.host (Code.ofText "+[.-]]+]")).Ends .free
      (Run.start { tape := (Tape.blank : Tape Word) } { script := some [], collecting := true })
      ⟨.error (.unmatched 7 .closing),
        { tape := Tape.blank.increment.decrement.increment, ip := 7 },
        { script := some [], collecting := true, collected := #[1] }⟩ := ⟨12, rfl⟩
  obtain ⟨finish, hruns⟩ := hmachine.1.mp ⟨_, hends⟩
  obtain ⟨hresult, _, hworld⟩ := hmachine.2 _ finish hends hruns
  exact ⟨finish, hruns, hresult.symm, by rw [← hworld]⟩

end Programs

end Block

end Brainfuck
