/-
  Room: as long as there is room in its words, nobody sees that a machine has words.

  A word wraps around at `2^63`.  An instruction changes one cell by one, or stores the code of a
  character in it, and no code is above `0x10FFFF`.  So behind `n` instructions every cell is
  between `-n` and `0x10FFFF + n`: one instruction more is one more on either side
  (`Advances.within`), and a trail is as many instructions as it is long (`Trail.within`).

  A state within room fits, so a call of words goes as the same call of integers
  (`Engine.Counts.run`, `Session.call_integers`), provided that there is room for the instructions
  that succeed in it.  It is enough to count them on EITHER side, because the two calls go the same
  way for as long as either has room; hence lives of words are lives of integers and the other way
  round.

  There may be no room left for the last instruction that is ATTEMPTED.  Then it fails, or else it
  would have been counted; and what does not fit cannot fail.
-/
import Brainfuck.Proofs.Integers

namespace Brainfuck

/-! ## Bounds -/

section Bounds

variable {code : Code} {s t : State Word} {states : List (State Word)} {m n : Nat}

/-- There is room in a word for `n` instructions. -/
def Roomy (n : Nat) : Prop := n + 0x10FFFF < 2 ^ 63

theorem Roomy.mono (h : Roomy n) (hmn : m ≤ n) : Roomy m :=
  Nat.lt_of_le_of_lt (Nat.add_le_add_right hmn _) h

/-- Every cell is where `n` instructions can have brought it. -/
def State.Within (n : Nat) (s : State Word) : Prop :=
  ∀ c ∈ s.tape.cells, -n ≤ Cell.value c ∧ Cell.value c ≤ 0x10FFFF + n

theorem State.initial_within : State.initial.Within 0 := by
  intro c hc
  obtain rfl : c = 0 := Array.mem_singleton.mp hc
  decide

theorem State.Within.mono (h : s.Within m) (hmn : m ≤ n) : s.Within n := by
  intro c hc
  have hvalue := h c hc
  omega

/-- With room for one more instruction no cell can wrap. -/
theorem State.Within.unwrapped (h : s.Within n) (hroom : Roomy (n + 1)) {c : Word}
    (hc : c ∈ s.tape.cells) :
    Cell.value (Cell.succ c) = Cell.value c + 1 ∧ Cell.value (Cell.pred c) = Cell.value c - 1 := by
  have hvalue := h c hc
  unfold Roomy at hroom
  exact ⟨value_succ (by omega), value_pred (by omega)⟩

namespace Tape

variable {α : Type} [Cell α] {c : α}

omit [Cell α] in
theorem cell_mem (t : Tape α) : t.cell ∈ t.cells := Array.getElem_mem t.pointer_lt

omit [Cell α] in
theorem mem_update {f : α → α} {t : Tape α} (h : c ∈ (t.update f).cells) :
    c ∈ t.cells ∨ c = (t.update f).cell := by
  obtain ⟨i, hi, rfl⟩ := Array.getElem_of_mem h
  rw [cell_update]
  simp only [update, Array.getElem_modify]
  split
  · next hpointer =>
    subst hpointer
    exact .inr rfl
  · exact .inl (Array.getElem_mem _)

theorem mem_moveRight {t : Tape α} (h : c ∈ t.moveRight.cells) : c ∈ t.cells ∨ c = Cell.zero := by
  rw [moveRight] at h
  split at h
  · exact .inl h
  · exact Array.mem_push.mp h

/-- Behind a store every cell is an old one, or on the way from zero to the number. -/
theorem mem_store {t : Tape Word} {c : Word} (hn : n < 2 ^ 63) (h : c ∈ (t.store n).cells) :
    c ∈ t.cells ∨ 0 ≤ Cell.value c ∧ Cell.value c ≤ n := by
  induction n with
  | zero =>
    rcases mem_update h with hold | rfl
    · exact .inl hold
    · rw [cell_update]
      exact .inr ⟨by decide, by decide⟩
  | succ n ih =>
    rcases mem_update h with hold | hnew
    · rcases ih (by omega) hold with hold | hvalue
      · exact .inl hold
      · exact .inr (by omega)
    · have hvalue : Cell.value c = (n + 1 : Nat) := by
        rw [hnew]
        show (t.store (n + 1)).value = _
        exact value_store_word hn
      exact .inr (by omega)

end Tape

theorem State.Within.fits (h : s.Within n) (hroom : Roomy (n + 1)) (code : Code) :
    s.Fits code := by
  have hvalue : -n ≤ s.tape.value ∧ s.tape.value ≤ 0x10FFFF + n := h _ s.tape.cell_mem
  unfold Roomy at hroom
  exact ⟨fun _ => by omega, fun _ => by omega⟩

/-- **One instruction** brings the cells at most one further. -/
theorem Advances.within (h : Advances code s t) (hs : s.Within n) (hroom : Roomy (n + 1)) :
    t.Within (n + 1) := by
  have hsame : s.Within (n + 1) := hs.mono (Nat.le_succ n)
  have hvalue := hs _ s.tape.cell_mem
  obtain ⟨hsucc, hpred⟩ := hs.unwrapped hroom s.tape.cell_mem
  cases h with
  | right _ =>
    intro c hc
    rcases Tape.mem_moveRight hc with hc | rfl
    · exact hsame c hc
    · show -((n + 1 : Nat) : Int) ≤ 0 ∧ (0 : Int) ≤ 0x10FFFF + (n + 1 : Nat)
      omega
  | left _ hleft =>
    obtain ⟨hcells, -⟩ := Tape.moveLeft_eq_ok hleft
    intro c hc
    rw [hcells] at hc
    exact hsame c hc
  | increment _ =>
    intro c hc
    rcases Tape.mem_update hc with hc | rfl
    · exact hsame c hc
    · rw [Tape.cell_update, hsucc]
      omega
  | decrement _ =>
    intro c hc
    rcases Tape.mem_update hc with hc | rfl
    · exact hsame c hc
    · rw [Tape.cell_update, hpred]
      omega
  | input line _ =>
    intro c hc
    have hcode := Line.answerCode_le line
    rcases Tape.mem_store (by omega) hc with hc | hstored
    · exact hsame c hc
    · omega
  | _ => exact hsame

/-- **A whole trail** brings them at most as far as it is long. -/
theorem Trail.within (h : Trail code s states t) (hs : s.Within n)
    (hroom : Roomy (n + states.length)) : t.Within (n + states.length) := by
  induction h generalizing n with
  | nil => exact hs
  | @cons _ _ _ states hadvances _ ih =>
    have hlength : n + (states.length + 1) = n + 1 + states.length := by omega
    rw [List.length_cons, hlength] at hroom ⊢
    exact ih (hadvances.within hs (hroom.mono (Nat.le_add_right ..))) hroom

/-- And so on every state of a trail. -/
theorem Trail.within_getElem? {u : State Word} {k : Nat} (h : Trail code s states t)
    (hs : s.Within 0) (hroom : Roomy states.length) (hk : (s :: states)[k]? = some u) :
    u.Within k := by
  have hlength : (states.take k).length = min k states.length := List.length_take
  have hroom : Roomy (0 + (states.take k).length) := hroom.mono (by omega)
  exact ((h.take hk).within hs hroom).mono (by omega)

end Bounds

/-! ## Calls -/

section Calls

variable {ω : Type} {engine : Engine Word ω} {engine' : Engine Int ω} {control : Control ω}
  {n turns : Nat}

/-- One turn goes the same way, unless it wraps; and then it is a turn that succeeds, here and
    there. -/
theorem Engine.Counts.tick (h : engine.Counts engine') (control : Control ω)
    (run : Run Word ω) :
    engine'.tick control run.integers = (engine.tick control run).integers
      ∨ ¬ run.state.Fits engine.code ∧ (∃ next, engine.tick control run = .running next)
        ∧ ∃ next', engine'.tick control run.integers = .running next' := by
  have hfinished : run.integers.state.Finished engine'.code ↔ run.state.Finished engine.code := by
    rw [h.code]
    exact Iff.rfl
  have hturn := engine.turn_tick control run
  generalize engine.tick control run = progress at hturn ⊢
  cases hturn with
  | @finished closing world hend hclose =>
    have hclose' : engine'.close run.integers.world = (closing, world) := by
      rw [h.close]
      exact hclose
    exact .inl (Engine.Turn.finished (hfinished.mpr hend) hclose').tick_eq
  | canceled hunfinished hcanceled =>
    exact .inl (Engine.Turn.canceled (mt hfinished.mp hunfinished) hcanceled).tick_eq
  | limited hunfinished hgoing hlimit hused =>
    exact .inl (Engine.Turn.limited (mt hfinished.mp hunfinished) hgoing hlimit hused).tick_eq
  | failed hunfinished hadmits hattempt =>
    have hadmits' : control.Admits run.integers := ⟨hadmits.going, hadmits.room⟩
    by_cases hfits : run.state.Fits engine.code
    · have hattempt' := h.fits hfits run.steps run.world
      rw [hattempt] at hattempt'
      exact .inl (Engine.Turn.failed (mt hfinished.mp hunfinished) hadmits' hattempt').tick_eq
    · obtain ⟨hok, -⟩ := h.wraps hfits run.steps run.world
      rw [hattempt] at hok
      cases hok
  | succeeded hunfinished hadmits hattempt =>
    have hadmits' : control.Admits run.integers := ⟨hadmits.going, hadmits.room⟩
    by_cases hfits : run.state.Fits engine.code
    · have hattempt' := h.fits hfits run.steps run.world
      rw [hattempt] at hattempt'
      exact .inl (Engine.tick_of_ok (mt hfinished.mp hunfinished) hadmits' hattempt')
    · obtain ⟨-, hok⟩ := h.wraps hfits run.steps run.world
      rcases hattempt' : engine'.attempt run.steps run.state.integers run.world with ⟨result, t, w⟩
      rw [hattempt'] at hok
      obtain rfl : result = .ok () := hok
      exact .inr ⟨hfits, ⟨_, rfl⟩, _,
        Engine.tick_of_ok (mt hfinished.mp hunfinished) hadmits' hattempt'⟩

/-- The state behind a turn that succeeds has been passed. -/
theorem Engine.passed_succ {α : Type} {engine : Engine α ω} {run next : Run α ω}
    (h : engine.tick control run = .running next) :
    engine.passed control (turns + 1) run = next.state :: engine.passed control turns next := by
  rw [Engine.passed, h]

/-- **A call goes the same way** while there is room for the instructions that succeed in it, on
    either side. -/
theorem Engine.Counts.run (h : engine.Counts engine') (lawful : engine.Lawful)
    (run : Run Word ω) (hrun : run.state.Within n)
    (hroom : Roomy (n + (engine.passed control turns run).length)
      ∨ Roomy (n + (engine'.passed control turns run.integers).length)) :
    engine'.run control turns run.integers = (engine.run control turns run).integers
      ∧ engine'.passed control turns run.integers
        = (engine.passed control turns run).map State.integers := by
  induction turns generalizing run n with
  | zero => exact ⟨rfl, rfl⟩
  | succ turns ih =>
    have htick : engine'.tick control run.integers = (engine.tick control run).integers := by
      rcases h.tick control run with htick | ⟨hwraps, ⟨next, hnext⟩, next', hnext'⟩
      · exact htick
      · -- Either call has passed a state here, so whichever is counted, there was room.
        rw [Engine.passed_succ hnext, Engine.passed_succ hnext', List.length_cons,
          List.length_cons] at hroom
        have hone : Roomy (n + 1) := by
          rcases hroom with hroom | hroom <;> exact hroom.mono (by omega)
        exact absurd (hrun.fits hone _) hwraps
    have hturn := engine.turn_tick control run
    cases hprogress : engine.tick control run with
    | ended result last =>
      rw [hprogress] at htick
      rw [Engine.run, Engine.run, Engine.passed, Engine.passed, htick, hprogress]
      exact ⟨rfl, rfl⟩
    | running next =>
      rw [hprogress] at htick hturn
      have htick : engine'.tick control run.integers = .running next.integers := htick
      have hroom : Roomy (n + 1 + (engine.passed control turns next).length)
          ∨ Roomy (n + 1 + (engine'.passed control turns next.integers).length) := by
        rw [Engine.passed_succ hprogress, Engine.passed_succ htick] at hroom
        rcases hroom with hroom | hroom
        · exact .inl (hroom.mono (by rw [List.length_cons]; omega))
        · exact .inr (hroom.mono (by rw [List.length_cons]; omega))
      have hnext : next.state.Within (n + 1) := by
        have hone : Roomy (n + 1) := by
          rcases hroom with hroom | hroom <;> exact hroom.mono (Nat.le_add_right ..)
        cases hturn with
        | succeeded hunfinished _ hattempt =>
          exact (lawful.advances hunfinished hattempt).within hrun hone
      obtain ⟨hsame, hpassed⟩ := ih next hnext hroom
      rw [Engine.run, Engine.run, Engine.passed_succ hprogress, Engine.passed_succ htick, htick,
        hprogress, hpassed]
      exact ⟨hsame, rfl⟩

end Calls

/-! ## Sessions -/

namespace Session

variable {n turns : Nat} {c : Call} {events : List Event}

/-- A step that counts passes a state. -/
theorem length_passed_step {α : Type} [Cell α] {s : Session α} (h : s.state.Counting s.code) :
    (s.passed turns .step).length = 1 := by
  have hunfinished : ¬ s.state.Finished s.code := by
    obtain ⟨i, -, hi, -⟩ := h.effect_eq
    exact Nat.not_le_of_lt (Array.getElem?_eq_some_iff.mp hi).1
  have hok : s.step.1 = .ok () := h.attempt_ok s.console
  rw [passed, if_neg hunfinished]
  rcases hstep : s.step with ⟨result, next⟩
  rw [hstep] at hok
  obtain rfl : result = .ok () := hok
  rfl

theorem ended_integers (code : Code) (progress : Progress Word Console) :
    ended code progress.integers = (ended code progress).map (Prod.map id integers) := by
  cases progress with
  | running run => rfl
  | ended result run => rfl

/-- Calls that have gone the same way have come to the same point. -/
theorem reached_integers {code : Code} {progress : Progress Word Console}
    {progress' : Progress Int Console} (h : progress' = progress.integers) :
    ({ code, state := progress'.point.state, console := progress'.point.world } : Session Int)
      = ({ code, state := progress.point.state,
           console := progress.point.world } : Session).integers := by
  subst h
  cases progress with
  | running run => rfl
  | ended result run => rfl

section Words

variable {s : Session Word}

/-- A step that does not wrap. -/
theorem step_integers (hfits : s.state.Fits s.code) :
    s.integers.step = Prod.map id integers s.step := by
  have hattempt : attempt Console.host s.integers.code s.integers.state s.integers.console
      = (attempt Console.host s.code s.state s.console).integers := attempt_integers hfits _
  rw [step, hattempt]
  rfl

/-- With room for it, a step does not wrap if it succeeds. -/
theorem fits_of_step_roomy (hs : s.state.Within n)
    (hroom : Roomy (n + (s.passed turns .step).length)
      ∨ Roomy (n + (s.integers.passed turns .step).length)) : s.state.Fits s.code := by
  by_cases hfits : s.state.Fits s.code
  · exact hfits
  · have hcounting := State.counting_of_not_fits hfits
    have hcounting' : s.integers.state.Counting s.integers.code := hcounting
    rw [length_passed_step hcounting, length_passed_step hcounting'] at hroom
    rcases hroom with hroom | hroom
    · exact hs.fits hroom _
    · exact hs.fits hroom _

/-- **A call goes the same way** while there is room for the instructions that succeed in it, on
    either side. -/
theorem call_integers (hs : s.state.Within n)
    (hroom : Roomy (n + (s.passed turns c).length)
      ∨ Roomy (n + (s.integers.passed turns c).length)) :
    s.integers.call turns c = (s.call turns c).map (Prod.map id integers)
      ∧ s.integers.passed turns c = (s.passed turns c).map State.integers
      ∧ s.integers.reached turns c = (s.reached turns c).integers := by
  cases c with
  | step =>
    have hstep := step_integers (fits_of_step_roomy hs hroom)
    refine ⟨?_, ?_, ?_⟩
    · rw [call, call, hstep]
      rfl
    · rw [passed, passed, hstep]
      show (if s.state.Finished s.code then _ else _) = _
      split
      · rfl
      · rcases s.step with ⟨⟨fault⟩ | ⟨⟨⟩⟩, next⟩ <;> rfl
    · rw [reached, reached, hstep]
      rfl
  | run bounds =>
    obtain ⟨hrun, hpassed⟩ := (Engine.real_counts Console.host s.code).run
      (Engine.real_lawful Console.host s.code) (Run.start s.state s.console) hs hroom
    refine ⟨?_, hpassed, ?_⟩
    · rw [call, call, ← ended_integers]
      exact congrArg (ended s.code) hrun
    · exact reached_integers hrun
  | rehearse bounds =>
    obtain ⟨hrun, hpassed⟩ := (Engine.rehearsal_counts _ s.code).run
      (Engine.rehearsal_lawful _ s.code)
      (Run.start s.state (s.console.print Row.header)) hs hroom
    refine ⟨?_, hpassed, ?_⟩
    · rw [call, call, ← ended_integers]
      exact congrArg (ended s.code) hrun
    · exact reached_integers hrun

end Words

/-! ## Lives -/

namespace Lives

variable {first s : Session Word} {passed : List (State Word)}

theorem within (h : first.Lives events passed s) (hfirst : first.state.Within 0)
    (hroom : Roomy passed.length) : s.state.Within passed.length := by
  have hwithin := h.trail.within hfirst (by rw [Nat.zero_add]; exact hroom)
  rw [Nat.zero_add] at hwithin
  exact hwithin

/-- A life of words is one of integers, -/
theorem integers (h : first.Lives events passed s) (hfirst : first.state.Within 0)
    (hroom : Roomy passed.length) :
    first.integers.Lives events (passed.map State.integers) s.integers := by
  induction h with
  | fresh => exact .fresh
  | @call events passed s next turns c result hlives hcall ih =>
    rw [List.length_append] at hroom
    have hbefore := hroom.mono (Nat.le_add_right ..)
    obtain ⟨hcall', hpassed, -⟩ := call_integers (hlives.within hfirst hbefore) (.inl hroom)
    rw [hcall] at hcall'
    rw [List.map_append, ← hpassed]
    exact (ih hbefore).call hcall'
  | change _ console ih => exact (ih hroom).change console

/-- and there are no other lives of integers. -/
theorem of_integers {passed' : List (State Int)} {s' : Session Int}
    (h : first.integers.Lives events passed' s') (hfirst : first.state.Within 0)
    (hroom : Roomy passed'.length) :
    ∃ passed s, first.Lives events passed s ∧ passed' = passed.map State.integers
      ∧ s' = s.integers := by
  induction h with
  | fresh => exact ⟨[], first, .fresh, rfl, rfl⟩
  | @call events passed' s' next' turns c result _ hcall' ih =>
    rw [List.length_append] at hroom
    obtain ⟨passed, s, hlives, rfl, rfl⟩ := ih (hroom.mono (Nat.le_add_right ..))
    rw [List.length_map] at hroom
    have hbefore := hroom.mono (Nat.le_add_right ..)
    -- Here it is the integers' instructions that are known to be few.
    obtain ⟨hcall, hpassed, -⟩ := call_integers (hlives.within hfirst hbefore) (.inr hroom)
    rw [hcall', eq_comm, Option.map_eq_some_iff] at hcall
    obtain ⟨⟨_, next⟩, hcall, heq⟩ := hcall
    obtain ⟨rfl, rfl⟩ := Prod.mk.inj heq
    refine ⟨_, next, hlives.call hcall, ?_, rfl⟩
    rw [List.map_append, hpassed]
  | change _ console ih =>
    obtain ⟨passed, s, hlives, rfl, rfl⟩ := ih hroom
    exact ⟨passed, _, hlives.change console, rfl, rfl⟩

end Lives

theorem integers_fresh (code : Code) (console : Console) :
    ({ code, console } : Session).integers = { code, console } := by
  show Session.mk code (State.mk (Tape.blank : Tape Word).integers 0) console = _
  rw [Tape.integers_blank]
  rfl

/-- **Words count like integers.**  Take a session with words in its cells from the beginning, let
    it live and make one more call, which may go on for ever, and let `n` instructions succeed in
    all this, of real runs and of rehearsals.  While `n + 0x10FFFF < 2^63`:

    * behind `k` of these instructions every cell is between `-k` and `0x10FFFF + k`, and until the
      last of them no cell can wrap around, up or down;
    * the session with integers in its cells lives the same life, with the same results and the
      same console at every call, through the same states, and answers the call in the same way.

    And the lives of integers with so few instructions are all found in this way.  The byte of an
    integer is its remainder by 256, also below zero. -/
theorem words_count_like_integers (code : Code) (console : Console) :
    (∀ (events : List Event) (passed : List (State Word)) (s : Session) (turns : Nat) (c : Call)
      (n : Nat), ({ code, console } : Session).Lives events passed s →
      (passed ++ s.passed turns c).length = n → n + 0x10FFFF < 2 ^ 63 →
        (∀ (k : Nat) (t : State Word),
          (State.initial :: (passed ++ s.passed turns c))[k]? = some t →
          ∀ cell ∈ t.tape.cells,
            (-k ≤ Cell.value cell ∧ Cell.value cell ≤ 0x10FFFF + k)
            ∧ (k < n → Cell.value (Cell.succ cell) = Cell.value cell + 1
              ∧ Cell.value (Cell.pred cell) = Cell.value cell - 1))
        ∧ ({ code, console } : Session Int).Lives events (passed.map State.integers) s.integers
        ∧ s.integers.call turns c = (s.call turns c).map (Prod.map id integers)
        ∧ s.integers.passed turns c = (s.passed turns c).map State.integers
        ∧ s.integers.reached turns c = (s.reached turns c).integers)
      ∧ (∀ (events : List Event) (passed' : List (State Int)) (s' : Session Int),
        ({ code, console } : Session Int).Lives events passed' s' →
        passed'.length + 0x10FFFF < 2 ^ 63 →
          ∃ passed s, ({ code, console } : Session).Lives events passed s
            ∧ passed' = passed.map State.integers ∧ s' = s.integers)
      ∧ ∀ cell : Int, ((Cell.byte cell).toNat : Int) = cell % 256 := by
  have hfirst : ({ code, console } : Session).state.Within 0 := State.initial_within
  rw [← integers_fresh]
  refine ⟨?_, ?_, toNat_byte⟩
  · intro events passed s turns c n h hn hroom
    have hroomy : Roomy (passed ++ s.passed turns c).length := by
      rw [hn]
      exact hroom
    have hlength := hroomy
    rw [List.length_append] at hlength
    have hbefore := hlength.mono (Nat.le_add_right ..)
    have hcall := call_integers (h.within hfirst hbefore) (.inl hlength)
    refine ⟨?_, h.integers hfirst hbefore, hcall⟩
    have htrail := s.trail_reached turns c
    rw [h.code_eq] at htrail
    have hall := h.trail.append htrail
    intro k t hk cell hcell
    have hwithin := hall.within_getElem? hfirst hroomy hk
    refine ⟨hwithin cell hcell, ?_⟩
    intro hlt
    have hone : Roomy (k + 1) := hroomy.mono (by omega)
    exact hwithin.unwrapped hone hcell
  · intro events passed' s' h hroom
    exact h.of_integers hfirst hroom

/-- Below zero: a word counts down to `-1`, and so does an integer, and the byte that is written
    is 255. -/
theorem minus_one_is_written_as_255 :
    ∃ passed s, ({ code := Code.ofText "-.", console := { collecting := true } } : Session Int).Lives
        [.called (.run {}) (.ok ()) { collecting := true, collected := #[255] }] passed s
      ∧ passed.length = 2 ∧ s.state.tape.value = -1 := by
  have hfresh :
      ({ code := Code.ofText "-.", console := { collecting := true } } : Session).Lives
        [] [] _ := .fresh
  have hrun :
      ({ code := Code.ofText "-.", console := { collecting := true } } : Session).call 3 (.run {})
        = some (.ok (),
          { code := Code.ofText "-.",
            state := { tape := Tape.blank.decrement, ip := 2 },
            console := { collecting := true, collected := #[255] } }) := rfl
  obtain ⟨hwords, -, -⟩ :=
    words_count_like_integers (Code.ofText "-.") { collecting := true }
  obtain ⟨-, hlives, -, -⟩ := hwords _ _ _ 0 .step 2 (hfresh.call hrun) rfl (by decide)
  refine ⟨_, _, hlives, rfl, ?_⟩
  show (Tape.blank : Tape Word).decrement.integers.value = -1
  rw [Tape.value_integers]
  rfl

end Session

end Brainfuck
