/-
  Well-formedness: every position a session uses is in range, for its whole life.

  * The instruction pointer never leaves the program by more than one place (`Advances.ip_le`):
    it advances from an instruction, and a jump lands behind a bracket, because every partner in
    the tables is a position of the program (`Code.closeOf_lt`, `Code.openOf_lt`).
  * The row of cells is exactly as long as the data pointer has ever needed it.  One instruction
    makes the row as long as it was or as the pointer needs it now, whichever is more
    (`Advances.size_eq`); so a whole trail makes it as long as its HIGH WATER mark says
    (`Trail.size_eq`), and this must be said of the past and not of the present alone.

  A finished program cannot advance, so the rest of a session's life changes nothing any more;
  and with a collector its calls end well, whatever limit or flag they have
  (`Session.call_of_finished`), because the end of the program is looked for first.
-/
import Brainfuck.Proofs.Advance
import Brainfuck.Proofs.Pairing

namespace Brainfuck

variable {α : Type} [Cell α] {code : Code} {s t : State α} {states : List (State α)}

/-! ## The instruction pointer -/

namespace Code

variable {i j : Nat}

theorem closeOf_lt (h : code.loops.closeOf i = .ok j) : j < code.size := by
  rw [code.loops_eq, Loops.closeOf_eq_ok_iff] at h
  have hlt := h.lt_length
  rw [Array.length_toList] at hlt
  exact hlt

theorem openOf_lt (h : code.loops.openOf j = .ok i) : i < code.size := by
  rw [code.loops_eq, Loops.openOf_eq_ok_iff] at h
  have hlt := h.lt_length
  rw [Array.length_toList] at hlt
  exact Nat.lt_trans h.lt hlt

end Code

theorem Advances.ip_le (h : Advances code s t) : t.ip ≤ code.size := by
  have hlt := h.ip_lt
  cases h with
  | skip _ _ hpartner => exact Code.closeOf_lt hpartner
  | again _ _ hpartner => exact Code.openOf_lt hpartner
  | _ => exact hlt

theorem Trail.ip_le (h : Trail code s states t) (hs : s.ip ≤ code.size) : t.ip ≤ code.size := by
  induction h with
  | nil => exact hs
  | cons hadvances _ ih => exact ih hadvances.ip_le

/-! ## The row of cells -/

/-- The row is as long as it was, or as the pointer needs it. -/
theorem Advances.size_eq (h : Advances code s t) :
    t.tape.cells.size = max s.tape.cells.size (t.tape.pointer + 1) := by
  have hlt := s.tape.pointer_lt
  cases h with
  | right _ => rw [Tape.size_moveRight, Tape.pointer_moveRight]
  | left _ hleft =>
    obtain ⟨hcells, hpointer⟩ := Tape.moveLeft_eq_ok hleft
    simp only [hcells]
    omega
  | increment _ =>
    simp only [Tape.increment, Tape.size_update, Tape.pointer_update]
    omega
  | decrement _ =>
    simp only [Tape.decrement, Tape.size_update, Tape.pointer_update]
    omega
  | input line _ =>
    simp only [Tape.size_store, Tape.pointer_store]
    omega
  | _ =>
    simp only [State.advance, State.jump]
    omega

/-- The largest data pointer of some states. -/
def highWater : List (State α) → Nat
  | [] => 0
  | s :: states => max s.tape.pointer (highWater states)

/-- **The row is as long as the largest pointer has made it**, in the past that is summed up by
    `mark` or since then. -/
theorem Trail.size_eq {mark : Nat} (h : Trail code s states t)
    (hs : s.tape.cells.size = 1 + mark) : t.tape.cells.size = 1 + max mark (highWater states) := by
  induction h generalizing mark with
  | nil =>
    rw [highWater]
    omega
  | @cons s next _ _ hadvances _ ih =>
    have hsize := hadvances.size_eq
    have hnext : next.tape.cells.size = 1 + max mark next.tape.pointer := by omega
    rw [ih hnext, highWater]
    omega

/-! ## Finished programs -/

theorem State.Finished.not_advances (h : s.Finished code) (t : State α) : ¬ Advances code s t := by
  intro hadvances
  exact absurd hadvances.ip_lt (Nat.not_lt_of_le h)

namespace Session

variable {session : Session α} {events : List Event} {passed : List (State α)}

omit [Cell α] in
/-- A run of a finished program ends at once. -/
theorem run_of_finished (engine : Engine α Console) (bounds : Bounds) {console : Console}
    (hfinished : s.Finished engine.code) (hclose : engine.close console = (.ok (), console))
    (turns : Nat) :
    engine.run bounds.control (turns + 1) (Run.start s console)
      = .ended (.ok ()) (Run.start s console) := by
  have hturn : engine.Turn bounds.control (Run.start s console) _ := .finished hfinished hclose
  rw [Engine.run, hturn.tick_eq]
  rfl

/-- **A call of a finished session ends well** if its output is collected, and all that is left of
    it is the head of a table. -/
theorem call_of_finished (h : session.state.Finished session.code)
    (hcollecting : session.console.collecting = true) (c : Call) (turns : Nat) :
    session.call (turns + 1) c
      = some (.ok (), { session with console := c.announced session.console }) := by
  cases c with
  | step =>
    rw [call, step, attempt_of_finished h]
    rfl
  | run bounds =>
    have hflush := Console.hooked_host.flush session.console hcollecting
    rw [call, run_of_finished (Engine.real Console.host session.code) bounds h hflush turns]
    rfl
  | rehearse bounds =>
    rw [call, run_of_finished (printing session.code) bounds h rfl turns]
    rfl

/-! ## Lives -/

/-- What is true of a session that was loaded from this text and whose machine has been in these
    states, of which the last is where it is. -/
structure WellFormed (text : String) (past : List (State α)) (session : Session α) : Prop where
  code_eq : session.code = Code.ofText text
  close_lt : ∀ i j, session.code.loops.closeOf i = .ok j → j < session.code.size
  open_lt : ∀ i j, session.code.loops.openOf j = .ok i → i < session.code.size
  present : past.getLast? = some session.state
  ip_le : ∀ t ∈ past, t.ip ≤ session.code.size
  pointer_lt : ∀ t ∈ past, t.tape.pointer < t.tape.cells.size
  /-- At every point of the past. -/
  size_eq : ∀ k t, past[k]? = some t → t.tape.cells.size = 1 + highWater (past.take (k + 1))

/-- What a machine has gone through since it was blank tells all this. -/
theorem wellFormed_of_trail {text : String} (hcode : session.code = Code.ofText text)
    (htrail : Trail (Code.ofText text) State.initial passed session.state) :
    session.WellFormed text (State.initial :: passed) := by
  refine ⟨hcode, fun i j => Code.closeOf_lt, fun i j => Code.openOf_lt, htrail.getLast?_eq, ?_,
    fun t _ => t.tape.pointer_lt, ?_⟩
  · intro t ht
    obtain ⟨k, hk⟩ := List.getElem?_of_mem ht
    rw [hcode]
    exact (htrail.take hk).ip_le (Nat.zero_le _)
  · intro k t hk
    have hsize := (htrail.take hk).size_eq (show State.initial.tape.cells.size = 1 + 0 from rfl)
    rw [hsize, List.take_succ_cons, highWater]
    rfl

/-- **The state of a session stays well formed**, strictly loaded or not, whatever is asked of it,
    and also while a call is going on.  And once its program is finished, nothing of the machine
    changes any more; with a collector every later call ends well and leaves of itself at most the
    head of a table. -/
theorem life_is_well_formed {text : String} {code : Code} {console : Console}
    (hcode : Code.load text = .ok code ∨ Code.ofText text = code)
    (h : ({ code, console } : Session α).Lives events passed session) :
    session.WellFormed text (State.initial :: passed)
      ∧ (∀ (turns : Nat) (c : Call), (session.reached turns c).WellFormed text
        (State.initial :: (passed ++ session.passed turns c)))
      ∧ (session.state.ip = session.code.size →
        ∀ (events : List Event) (passed : List (State α)) (later : Session α),
          session.Lives events passed later →
          later.state = session.state ∧ passed = []
            ∧ (later.console.collecting = true → ∀ (c : Call) (turns : Nat),
              later.call (turns + 1) c
                = some (.ok (), { later with console := c.announced later.console }))) := by
  obtain rfl : Code.ofText text = code := by
    rcases hcode with hload | hcode
    · exact (Code.eq_ofText_of_load hload).symm
    · exact hcode
  have hcode : session.code = Code.ofText text := h.code_eq
  refine ⟨wellFormed_of_trail hcode h.trail, ?_, ?_⟩
  · intro turns c
    have htrail := session.trail_reached turns c
    rw [hcode] at htrail
    exact wellFormed_of_trail ((code_reached session turns c).trans hcode) (h.trail.append htrail)
  intro hend events passed later hlater
  have hfinished : session.state.Finished session.code := Nat.le_of_eq hend.symm
  obtain ⟨hpassed, hstate⟩ := hlater.stands_still hfinished.not_advances
  refine ⟨hstate, hpassed, ?_⟩
  intro hcollecting c turns
  rw [← hstate, ← hlater.code_eq] at hfinished
  exact call_of_finished hfinished hcollecting c turns

/-- A run to the end, and a run that may do nothing and has nothing to do. -/
theorem finished_run_is_well_formed :
    Session.WellFormed ">+"
        [State.initial, { tape := Tape.blank.moveRight, ip := 1 },
          { tape := Tape.blank.moveRight.increment, ip := 2 }]
        ({ code := Code.ofText ">+",
           state := { tape := Tape.blank.moveRight.increment, ip := 2 },
           console := { collecting := true } } : Session)
      ∧ ({ code := Code.ofText ">+",
           state := { tape := Tape.blank.moveRight.increment, ip := 2 },
           console := { collecting := true } } : Session).call 1 (.run { limit := some 0 })
        = some (.ok (),
          { code := Code.ofText ">+",
            state := { tape := Tape.blank.moveRight.increment, ip := 2 },
            console := { collecting := true } }) := by
  have hfresh :
      ({ code := Code.ofText ">+", console := { collecting := true } } : Session).Lives
        [] [] _ := .fresh
  have hrun :
      ({ code := Code.ofText ">+", console := { collecting := true } } : Session).call 3
          (.run {})
        = some (.ok (),
          { code := Code.ofText ">+",
            state := { tape := Tape.blank.moveRight.increment, ip := 2 },
            console := { collecting := true } }) := rfl
  obtain ⟨hwell, -, hlater⟩ := life_is_well_formed (.inr rfl) (hfresh.call hrun)
  obtain ⟨-, -, hcall⟩ := hlater rfl _ _ _ .fresh
  exact ⟨hwell, hcall rfl (.run { limit := some 0 }) 0⟩

end Session

end Brainfuck
