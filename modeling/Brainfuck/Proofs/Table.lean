/-
  Tables: the table of a rehearsal is a faithful log.

  A row is made from two SNAPSHOTS, one from before its instruction and one from behind it, and
  does not see the machine itself.  What it says about the machine is `Row.Tells`: the place, the
  pointer and the cell before the instruction, what the instruction has done to them, and where it
  has left the instruction pointer; the bracket of a jump is the partner in the loop tables,
  although the row has only found the pointer one place behind it.

  1. One instruction: the row made of its two snapshots tells what it has done
     (`Row.tells_between`).
  2. A run: the rows of a rehearsal are `Logged`, one for each state it passes, numbered from 0.
     From this alone follow their number, what each of them tells and that each determines the
     place of the next one.
  3. The TEXT that is printed shows these rows and no others (`Row.Listed`), so what is said of the
     rows is said of what stands on the screen.
  4. Three engines in lockstep.  The rehearsal that PRINTS its rows, the one that COLLECTS them in
     a list and the real run whose input is at its end go the same way; the list says what is
     printed by the first, and which bytes are written by the last (`printing_inStep_logging`,
     `real_inStep_logging`).
-/
import Brainfuck.Proofs.Legible
import Brainfuck.Proofs.Output
import Brainfuck.Proofs.Rehearsal

namespace Brainfuck

variable {α : Type} [Cell α] {ω ω' : Type} {code : Code} {s t : State α} {i : Instruction}
  {k : Nat} {states : List (State α)} {rows : List Row}

/-! ## One row -/

namespace Action

/-- The action says what the instruction has done between `s` and `t`. -/
inductive Tells (code : Code) (s t : State α) : Instruction → Action → Prop
  | right (hpointer : t.tape.pointer = s.tape.pointer + 1) :
      Tells code s t .right (.moved t.tape.pointer)
  | left (hpointer : t.tape.pointer + 1 = s.tape.pointer) :
      Tells code s t .left (.moved t.tape.pointer)
  | increment (hpointer : t.tape.pointer = s.tape.pointer) :
      Tells code s t .increment (.incremented s.tape.pointer s.tape.value t.tape.value)
  | decrement (hpointer : t.tape.pointer = s.tape.pointer) :
      Tells code s t .decrement (.decremented s.tape.pointer s.tape.value t.tape.value)
  | output (htape : t.tape = s.tape) : Tells code s t .output (.withheld (Cell.byte s.tape.cell))
  | input (hcell : t.tape.cell = Cell.zero) : Tells code s t .input .readNothing
  | skip {partner : Nat} (hzero : s.tape.value = 0)
      (hpartner : code.loops.closeOf s.ip = .ok partner) :
      Tells code s t .loopOpen (.jumpedForward partner)
  | enter (hvalue : s.tape.value ≠ 0) : Tells code s t .loopOpen .entered
  | again {partner : Nat} (hvalue : s.tape.value ≠ 0)
      (hpartner : code.loops.openOf s.ip = .ok partner) :
      Tells code s t .loopClose (.jumpedBack partner)
  | leave (hzero : s.tape.value = 0) : Tells code s t .loopClose .exited

/-- The partner bracket of a jump. -/
def partner? : Action → Option Nat
  | jumpedForward partner | jumpedBack partner => some partner
  | _ => none

/-- The byte that was not written. -/
def byte? : Action → Option UInt8
  | withheld byte => some byte
  | _ => none

end Action

/-- The row tells of the instruction that has taken the machine from `s` to `t`, with `k`
    instructions before it. -/
structure Row.Tells (code : Code) (k : Nat) (s t : State α) (row : Row) : Prop where
  step : row.step = k
  ip : row.before.ip = s.ip
  pointer : row.before.pointer = s.tape.pointer
  cell : row.before.cell = s.tape.value
  instruction : code.program[s.ip]? = some row.instruction
  succeeds : rehearse code s = (.ok (), t)
  action : row.action.Tells code s t row.instruction
  /-- A jump goes on behind the partner bracket, and everything else behind itself. -/
  next : t.ip = row.action.partner?.getD s.ip + 1

/-- The snapshots around an instruction are enough to tell what it has done. -/
theorem between_tells (h : (effect code s i).suppress = (.ok (), t)) :
    (Action.between s.snapshot t.snapshot i).Tells code s t i
      ∧ t.ip = (Action.between s.snapshot t.snapshot i).partner?.getD s.ip + 1 := by
  cases i with
  | right =>
    obtain ⟨-, rfl⟩ := Prod.mk.inj h
    exact ⟨.right s.tape.pointer_moveRight, rfl⟩
  | left =>
    rw [effect] at h
    split at h
    · next tape hleft =>
      obtain ⟨-, rfl⟩ := Prod.mk.inj h
      exact ⟨.left (Tape.moveLeft_eq_ok hleft).2, rfl⟩
    · cases h
  | increment =>
    obtain ⟨-, rfl⟩ := Prod.mk.inj h
    exact ⟨.increment rfl, rfl⟩
  | decrement =>
    obtain ⟨-, rfl⟩ := Prod.mk.inj h
    exact ⟨.decrement rfl, rfl⟩
  | output =>
    obtain ⟨-, rfl⟩ := Prod.mk.inj h
    exact ⟨.output rfl, rfl⟩
  | input =>
    obtain ⟨-, rfl⟩ := Prod.mk.inj h
    exact ⟨.input (Tape.cell_update _ s.tape), rfl⟩
  | loopOpen =>
    have hcell : s.snapshot.cell = s.tape.value := rfl
    rw [effect] at h
    rw [Action.between, hcell]
    split at h
    · next hzero =>
      rw [if_pos hzero]
      split at h
      · next partner hpartner =>
        obtain ⟨-, rfl⟩ := Prod.mk.inj h
        exact ⟨.skip hzero hpartner, rfl⟩
      · cases h
    · next hvalue =>
      rw [if_neg hvalue]
      obtain ⟨-, rfl⟩ := Prod.mk.inj h
      exact ⟨.enter hvalue, rfl⟩
  | loopClose =>
    have hcell : s.snapshot.cell = s.tape.value := rfl
    rw [effect] at h
    rw [Action.between, hcell]
    split at h
    · next hvalue =>
      rw [if_pos hvalue]
      split at h
      · next partner hpartner =>
        obtain ⟨-, rfl⟩ := Prod.mk.inj h
        exact ⟨.again hvalue hpartner, rfl⟩
      · cases h
    · next hzero =>
      rw [if_neg hzero]
      obtain ⟨-, rfl⟩ := Prod.mk.inj h
      exact ⟨.leave (Decidable.not_not.mp hzero), rfl⟩

theorem Row.tells_between (hi : code.program[s.ip]? = some i)
    (h : rehearse code s = (.ok (), t)) : (Row.between k s t i).Tells code k s t := by
  have hsuppress := h
  rw [rehearse, hi] at hsuppress
  obtain ⟨haction, hnext⟩ := between_tells hsuppress
  exact ⟨rfl, rfl, rfl, rfl, hi, h, haction, hnext⟩

/-! ## The rows of a run -/

/-- The rows tell of a run from `s` through these states, and the first of them has number `k`. -/
inductive Logged (code : Code) : Nat → State α → List (State α) → List Row → Prop
  | nil {k : Nat} {s : State α} : Logged code k s [] []
  | cons {k : Nat} {s t : State α} {states : List (State α)} {row : Row} {rows : List Row}
      (hrow : row.Tells code k s t) (hrest : Logged code (k + 1) t states rows) :
      Logged code k s (t :: states) (row :: rows)

namespace Logged

theorem length_eq (h : Logged code k s states rows) : rows.length = states.length := by
  induction h with
  | nil => rfl
  | cons _ _ ih => rw [List.length_cons, List.length_cons, ih]

/-- The `n`-th row tells of the `n`-th instruction. -/
theorem tells {n : Nat} {u : State α} (h : Logged code k s states rows)
    (hu : (s :: states)[n]? = some u) (ht : states[n]? = some t) :
    ∃ row, rows[n]? = some row ∧ row.Tells code (k + n) u t := by
  induction h generalizing n u with
  | nil => cases ht
  | cons hrow _ ih =>
    cases n with
    | zero =>
      obtain rfl := Option.some.inj hu
      obtain rfl := Option.some.inj ht
      exact ⟨_, rfl, hrow⟩
    | succ n =>
      obtain ⟨row, hrow, htells⟩ := ih hu ht
      refine ⟨row, hrow, ?_⟩
      rw [Nat.add_right_comm] at htells
      exact htells

/-- **A row determines where the next one is**: behind the bracket it has jumped to, or else
    behind itself. -/
theorem ip_eq {n : Nat} {row next : Row} (h : Logged code k s states rows)
    (hrow : rows[n]? = some row) (hnext : rows[n + 1]? = some next) :
    next.before.ip = row.action.partner?.getD row.before.ip + 1 := by
  induction h generalizing n with
  | nil => cases hrow
  | cons hfirst hrest ih =>
    cases n with
    | succ n => exact ih hrow hnext
    | zero =>
      obtain rfl := Option.some.inj hrow
      cases hrest with
      | nil => cases hnext
      | cons hsecond _ =>
        obtain rfl := Option.some.inj hnext
        rw [hsecond.ip, hfirst.ip]
        exact hfirst.next

end Logged

/-- A rehearsal that collects its rows. -/
def logging (code : Code) : Engine α (List Row) :=
  Engine.rehearsal (fun row rows => rows ++ [row]) code

/-- **What a rehearsal collects tells of all its instructions**, and it has counted them. -/
theorem logging_run (code : Code) (control : Control (List Row)) (turns : Nat)
    (first : Run α (List Row)) :
    ∃ rows, Logged code first.steps first.state ((logging code).passed control turns first) rows
      ∧ ((logging code).run control turns first).point.world = first.world ++ rows
      ∧ ((logging code).run control turns first).point.steps = first.steps + rows.length := by
  induction turns generalizing first with
  | zero => exact ⟨[], .nil, (List.append_nil _).symm, rfl⟩
  | succ turns ih =>
    rw [Engine.run, Engine.passed]
    have hturn := (logging code).turn_tick control first
    generalize (logging code).tick control first = progress at hturn ⊢
    cases hturn with
    | @succeeded next world hunfinished _ hattempt =>
      obtain ⟨i, hi⟩ := exists_getElem?_of_unfinished hunfinished
      have hrehearse := rehearse_of_rehearsal_attempt hattempt
      have hlogged : (logging code).attempt first.steps first.state first.world = _ :=
        rehearsal_attempt_of_ok hi hrehearse
      rw [hattempt] at hlogged
      obtain ⟨-, -, rfl⟩ := Outcome.mk.inj hlogged
      obtain ⟨rows, hrows, hworld, hsteps⟩ :=
        ih { state := next, world := first.world ++ [Row.between first.steps first.state next i],
             steps := first.steps + 1 }
      refine ⟨_, .cons (Row.tells_between hi hrehearse) hrows, ?_, ?_⟩
      · rw [hworld, List.append_assoc]
        rfl
      · rw [hsteps, List.length_cons]
        show first.steps + 1 + rows.length = _
        omega
    | failed _ _ hattempt =>
      have hsame : (logging code).attempt first.steps first.state first.world = _ :=
        rehearsal_attempt_of_error (rehearse_of_rehearsal_attempt hattempt)
      rw [hattempt] at hsame
      obtain ⟨-, -, rfl⟩ := Outcome.mk.inj hsame
      exact ⟨[], .nil, (List.append_nil _).symm, rfl⟩
    | @finished closing world _ hclose =>
      obtain ⟨-, rfl⟩ := Prod.mk.inj hclose
      exact ⟨[], .nil, (List.append_nil _).symm, rfl⟩
    | canceled _ _ => exact ⟨[], .nil, (List.append_nil _).symm, rfl⟩
    | limited _ _ _ _ => exact ⟨[], .nil, (List.append_nil _).symm, rfl⟩

/-! ## How a rehearsal ends -/

section Endings

variable {engine : Engine α ω} {control : Control ω} {log : Row → ω → ω} {first last : Run α ω}
  {turns limit : Nat} {fault : Fault}

omit [Cell α] in
/-- A limited call never counts beyond its limit. -/
theorem Engine.steps_le_of_run (h : engine.run control turns first = .running last)
    (hlimit : control.limit = some limit) (hfirst : first.steps ≤ limit) : last.steps ≤ limit := by
  induction turns generalizing first with
  | zero =>
    obtain rfl := Progress.running.inj h
    exact hfirst
  | succ turns ih =>
    rw [Engine.run] at h
    have hturn := engine.turn_tick control first
    generalize engine.tick control first = progress at hturn h
    cases hturn with
    | succeeded _ hadmits _ => exact ih h (hadmits.room limit hlimit)
    | failed _ _ _ => cases h
    | finished _ _ => cases h
    | canceled _ _ => cases h
    | limited _ _ _ _ => cases h

omit [Cell α] in
/-- A call that is canceled beforehand passes no state. -/
theorem Engine.passed_of_canceled (hcanceled : control.canceled first.world = true) :
    engine.passed control turns first = [] := by
  cases turns with
  | zero => rfl
  | succ turns =>
    rw [Engine.passed]
    have hturn := engine.turn_tick control first
    generalize engine.tick control first = progress at hturn ⊢
    cases hturn with
    | succeeded _ hadmits _ =>
      have hgoing := hadmits.going
      rw [hcanceled] at hgoing
      cases hgoing
    | failed _ _ _ => rfl
    | finished _ _ => rfl
    | canceled _ _ => rfl
    | limited _ _ _ _ => rfl

/-- **How a rehearsal ends that does not end well**: its next instruction fails, or it has been
    stopped, and then with exactly as many steps as it was allowed. -/
theorem rehearsal_run_eq_error
    (h : (Engine.rehearsal log code).run control turns first = .ended (.error fault) last)
    (hfirst : first.steps = 0) :
    (rehearse code last.state = (.error fault, last.state) ∧ fault.position? = some last.state.ip)
      ∨ fault = .canceled ∨ fault = .stepLimit last.steps := by
  obtain ⟨n, point, hpoint, hturn⟩ := Engine.exists_of_run_eq_ended h
  generalize hresult : (Except.error fault : Except Fault Unit) = result at hturn
  cases hturn with
  | finished _ hclose =>
    obtain ⟨rfl, -⟩ := Prod.mk.inj hclose
    cases hresult
  | canceled _ _ => exact .inr (.inl (Except.error.inj hresult))
  | @limited limit _ _ hlimit hused =>
    obtain rfl := Except.error.inj hresult
    have hle := Engine.steps_le_of_run hpoint hlimit (by omega)
    rw [Nat.le_antisymm hused hle]
    exact .inr (.inr rfl)
  | failed _ _ hattempt =>
    obtain rfl := Except.error.inj hresult
    have hrehearse := rehearse_of_rehearsal_attempt hattempt
    obtain ⟨-, -, -, rfl⟩ := effect_of_rehearse_error hrehearse
    exact .inl ⟨hrehearse, position?_of_rehearse_error hrehearse⟩

end Endings

/-! ## Rows that are printed -/

theorem Console.print_append (c : Console) (a b : String) :
    c.print (a ++ b) = (c.print a).print b := by
  rw [Console.print_eq, Console.print_eq, Console.print_eq, Stdout.print_append]

/-- **What is printed is what is collected**, head first. -/
theorem printing_inStep_logging (code : Code) (bounds : Bounds) (first : Console) :
    Engine.InStep (Session.printing code : Engine α Console) bounds.control (logging code)
      (bounds.steady first)
      fun s console t rows => s = t ∧ console = first.print (Row.table rows) where
  limit := rfl
  finished := by
    rintro s console t rows ⟨rfl, -⟩
    exact Iff.rfl
  canceled := by
    rintro s console t rows ⟨-, rfl⟩
    rfl
  close := by
    rintro s console t rows ⟨rfl, hprinted⟩ -
    exact ⟨rfl, rfl, hprinted⟩
  attempt := by
    rintro s console t rows ⟨rfl, hprinted⟩ hunfinished steps
    obtain ⟨i, hi⟩ := exists_getElem?_of_unfinished hunfinished
    rcases hrehearse : rehearse code s with ⟨⟨fault⟩ | ⟨⟨⟩⟩, t⟩
    · have hprinting : (Session.printing code).attempt steps s console = _ :=
        rehearsal_attempt_of_error hrehearse
      have hlogging : (logging code).attempt steps s rows = _ :=
        rehearsal_attempt_of_error hrehearse
      rw [hprinting, hlogging]
      exact ⟨rfl, rfl, hprinted⟩
    · have hprinting : (Session.printing code).attempt steps s console = _ :=
        rehearsal_attempt_of_ok hi hrehearse
      have hlogging : (logging code).attempt steps s rows = _ :=
        rehearsal_attempt_of_ok hi hrehearse
      rw [hprinting, hlogging]
      refine ⟨rfl, rfl, ?_⟩
      show console.print _ = _
      rw [hprinted, Row.table_append, Console.print_append]

omit [Cell α] in
/-- Calls in lockstep pass the same states, if this is part of what relates them. -/
theorem Engine.InStep.passed_eq {engine : Engine α ω} {control : Control ω}
    {engine' : Engine α ω'} {control' : Control ω'} {R : State α → ω → State α → ω' → Prop}
    (h : InStep engine control engine' control' R)
    (hstate : ∀ {s w t w'}, R s w t w' → s = t) {w : ω} {w' : ω'} (hR : R s w t w')
    (turns steps : Nat) :
    engine.passed control turns { state := s, world := w, steps }
      = engine'.passed control' turns { state := t, world := w', steps } := by
  induction turns generalizing s w t w' steps with
  | zero => rfl
  | succ turns ih =>
    rw [Engine.passed, Engine.passed]
    have htick := h.tick hR steps
    generalize engine.tick control { state := s, world := w, steps } = progress at htick ⊢
    generalize engine'.tick control' { state := t, world := w', steps } = progress' at htick ⊢
    cases htick with
    | @running s w t w' steps hnext =>
      obtain rfl := hstate hnext
      show s :: _ = s :: _
      rw [ih hnext]
    | ended _ => rfl

/-! ## Bytes that are not written -/

/-- Hooks with nothing to read, and with nothing that would raise the flag. -/
structure Console.Quiet (flag : Bool) (console : Console) : Prop where
  mute : console.Mute
  tripwire : console.tripwire = {}
  canceled : console.canceled = flag

/-- The byte that an instruction wants to be written. -/
def Effect.byte? : Effect α → Option UInt8
  | .emit byte _ => some byte
  | _ => none

/-- Without a tripwire nothing is noticed. -/
theorem Console.notice_eq_self {console : Console} (h : console.tripwire = {}) :
    console.notice = console := by
  have hflag : (console.canceled || console.tripwire.collected.any (· ≤ console.collected.size)
      || console.tripwire.asked.any (· ≤ console.asked)) = console.canceled := by
    rw [h]
    simp
  rw [Console.notice, hflag]

/-- On quiet hooks an effect is carried out as in a rehearsal, and the collector gets its byte if
    it has one. -/
theorem perform_of_quiet {flag : Bool} {console : Console} (hquiet : console.Quiet flag)
    (e : Effect α) :
    ∃ console', e.perform Console.host console = ⟨e.suppress.1, e.suppress.2, console'⟩
      ∧ console'.Quiet flag
      ∧ console'.collected.toList = console.collected.toList ++ e.byte?.toList := by
  have ⟨⟨hcollecting, hscript⟩, htripwire, hflag⟩ := hquiet
  cases e with
  | done next => exact ⟨console, rfl, hquiet, (List.append_nil _).symm⟩
  | emit byte here =>
    have hwrite : Console.host.write byte console
        = (.ok (), { console with collected := console.collected.push byte }) := by
      show console.write byte = _
      rw [Console.write, if_pos hcollecting]
      exact congrArg (Prod.mk _) (Console.notice_eq_self htripwire)
    rw [Effect.perform, hwrite]
    exact ⟨_, rfl, ⟨⟨hcollecting, hscript⟩, htripwire, hflag⟩, Array.toList_push⟩
  | ask here =>
    have hread : Console.host.readLine console
        = (.ok none, { console with script := some [], asked := console.asked + 1 }) := by
      show console.readLine = _
      rw [Console.readLine, hscript]
      exact congrArg (Prod.mk _) (Console.notice_eq_self htripwire)
    rw [Effect.perform, hread]
    exact ⟨_, rfl, ⟨⟨hcollecting, rfl⟩, htripwire, hflag⟩, (List.append_nil _).symm⟩
  | fault cause here => exact ⟨console, rfl, hquiet, (List.append_nil _).symm⟩

/-- `.` alone wants a byte to be written. -/
theorem byte?_effect (code : Code) (s : State α) (i : Instruction) :
    (effect code s i).byte? = if i = .output then some (Cell.byte s.tape.cell) else none := by
  cases i with
  | left =>
    rw [effect]
    split <;> rfl
  | loopOpen =>
    rw [effect]
    split
    · split <;> rfl
    · rfl
  | loopClose =>
    rw [effect]
    split
    · split <;> rfl
    · rfl
  | _ => rfl

theorem Action.Tells.byte?_eq {action : Action} (h : action.Tells code s t i) :
    action.byte? = if i = .output then some (Cell.byte s.tape.cell) else none := by
  cases h <;> rfl

/-- **The bytes that the rows name are the bytes that a run writes** which has nothing to read. -/
theorem real_inStep_logging (code : Code) (bounds : Bounds) (first : Console)
    (before : List UInt8) :
    Engine.InStep (Engine.real Console.host code : Engine α Console) bounds.control (logging code)
      (bounds.steady first)
      fun s console t rows => s = t ∧ console.Quiet first.canceled
        ∧ console.collected.toList = before ++ rows.filterMap (·.action.byte?) where
  limit := rfl
  finished := by
    rintro s console t rows ⟨rfl, -, -⟩
    exact Iff.rfl
  canceled := by
    rintro s console t rows ⟨-, hquiet, -⟩
    show (bounds.cancelable && console.canceled) = (bounds.cancelable && first.canceled)
    rw [hquiet.canceled]
  close := by
    rintro s console t rows ⟨rfl, hquiet, hbytes⟩ -
    have hflush : (Engine.real Console.host code : Engine α Console).close console
        = (.ok (), console) := Console.hooked_mute.flush console hquiet.mute
    rw [hflush]
    exact ⟨rfl, rfl, hquiet, hbytes⟩
  attempt := by
    rintro s console t rows ⟨rfl, hquiet, hbytes⟩ hunfinished steps
    obtain ⟨i, hi⟩ : ∃ i, code.program[s.ip]? = some i :=
      exists_getElem?_of_unfinished hunfinished
    obtain ⟨console', hperform, hquiet', hbytes'⟩ := perform_of_quiet hquiet (effect code s i)
    have hreal : (Engine.real Console.host code).attempt steps s console
        = ⟨(rehearse code s).1, (rehearse code s).2, console'⟩ := by
      show attempt Console.host code s console = _
      rw [attempt, rehearse, hi]
      exact hperform
    rcases hrehearse : rehearse code s with ⟨⟨fault⟩ | ⟨⟨⟩⟩, t⟩
    · have hlogging : (logging code).attempt steps s rows = _ :=
        rehearsal_attempt_of_error hrehearse
      rw [hreal, hlogging, hrehearse]
      refine ⟨rfl, rfl, hquiet', ?_⟩
      -- What fails is no byte that was to be written.
      obtain ⟨j, hj, heffect, -⟩ := effect_of_rehearse_error hrehearse
      obtain rfl := Option.some.inj (hi.symm.trans hj)
      rw [heffect] at hbytes'
      show console'.collected.toList = _
      rw [hbytes', hbytes]
      exact List.append_nil _
    · have hlogging : (logging code).attempt steps s rows = _ :=
        rehearsal_attempt_of_ok hi hrehearse
      rw [hreal, hlogging, hrehearse]
      refine ⟨rfl, rfl, hquiet', ?_⟩
      have hrow := Row.tells_between (k := steps) hi hrehearse
      have hbyte : (Row.between steps s t i).action.byte? = (effect code s i).byte? := by
        rw [byte?_effect]
        exact hrow.action.byte?_eq
      have hlast : [Row.between steps s t i].filterMap (·.action.byte?)
          = (effect code s i).byte?.toList := by
        rw [List.filterMap_cons, hbyte]
        cases (effect code s i).byte? <;> rfl
      show console'.collected.toList
        = before ++ (rows ++ [Row.between steps s t i]).filterMap (·.action.byte?)
      rw [List.filterMap_append, hlast, ← List.append_assoc, ← hbytes, hbytes']

/-! ## Sessions -/

namespace Session

variable {session next : Session α} {bounds : Bounds} {turns : Nat} {result : Except Fault Unit}

/-- A rehearsal that has ended has collected rows that tell of all its instructions, and has
    printed their table. -/
theorem logging_of_call (h : session.call turns (.rehearse bounds) = some (result, next)) :
    ∃ rows, (logging session.code).run (bounds.steady session.console) turns
        (Run.start session.state [])
        = .ended result { state := next.state, world := rows, steps := rows.length }
      ∧ Logged session.code 0 session.state (session.passed turns (.rehearse bounds)) rows
      ∧ next.console = session.console.print (Row.table rows) := by
  obtain ⟨last, hrun, rfl⟩ := exists_run_of_ended h
  have hinstep := printing_inStep_logging (α := α) session.code bounds session.console
  have hstart : session.state = session.state
      ∧ session.console.print Row.header = session.console.print (Row.table []) := by
    rw [Row.table_nil]
    exact ⟨rfl, rfl⟩
  have hpassed : session.passed turns (.rehearse bounds) = _ :=
    hinstep.passed_eq And.left hstart turns 0
  have halike := hinstep.run hstart turns 0
  have hrun : (printing session.code).run bounds.control turns
      { state := session.state, world := session.console.print Row.header, steps := 0 } = _ := hrun
  obtain ⟨rows, hlogged, hworld, hsteps⟩ := logging_run session.code
    (bounds.steady session.console) turns (Run.start session.state [])
  rw [hrun] at halike
  generalize hlogging : (logging session.code).run (bounds.steady session.console) turns
    { state := session.state, world := [], steps := 0 } = progress at halike
  have hstart : (logging session.code).run (bounds.steady session.console) turns
      (Run.start session.state []) = progress := hlogging
  rw [hstart] at hworld hsteps ⊢
  cases halike with
  | @ended s console t rows' steps result hrelated =>
    obtain ⟨rfl, rfl⟩ := hrelated
    obtain rfl : rows' = rows := hworld
    have hsteps : steps = 0 + rows'.length := hsteps
    rw [Nat.zero_add] at hsteps
    subst hsteps
    rw [hpassed]
    exact ⟨rows', rfl, hlogged, rfl⟩

/-- The same run, with nothing to read, ends in the same way, and the bytes that the rows name are
    what it has written. -/
theorem call_of_logging {last : State α} {rows : List Row} {steps : Nat}
    (h : (logging session.code).run (bounds.steady session.console) turns
      (Run.start session.state []) = .ended result { state := last, world := rows, steps })
    {console : Console} (hquiet : console.Quiet session.console.canceled) :
    ∃ next : Session α,
      ({ session with console } : Session α).call turns (.run bounds) = some (result, next)
        ∧ next.state = last
        ∧ next.console.collected.toList
          = console.collected.toList ++ rows.filterMap (·.action.byte?) := by
  have hstart : session.state = session.state ∧ console.Quiet session.console.canceled
      ∧ console.collected.toList
        = console.collected.toList ++ ([] : List Row).filterMap (·.action.byte?) :=
    ⟨rfl, hquiet, (List.append_nil _).symm⟩
  have halike := (real_inStep_logging session.code bounds session.console
    console.collected.toList).run hstart turns 0
  have h : (logging session.code).run (bounds.steady session.console) turns
      { state := session.state, world := [], steps := 0 } = _ := h
  rw [h] at halike
  generalize hreal : (Engine.real Console.host session.code).run bounds.control turns
    { state := session.state, world := console, steps := 0 } = progress at halike
  cases halike with
  | @ended s console' _ _ _ _ hrelated =>
    obtain ⟨rfl, -, hbytes⟩ := hrelated
    refine ⟨{ code := session.code, state := s, console := console' }, ?_, rfl, hbytes⟩
    show ended session.code ((Engine.real Console.host session.code).run bounds.control turns
      { state := session.state, world := console, steps := 0 }) = _
    rw [hreal]
    rfl

/-- What a text and the rows in it say of a rehearsal that has ended with `result` and left
    `next`. -/
structure Tabulates (session : Session α) (bounds : Bounds) (turns : Nat)
    (result : Except Fault Unit) (next : Session α) (text : String) (rows : List Row) : Prop where
  /-- The text is the table of these rows, line by line, -/
  listed : Row.Listed rows text
  /-- and of no others, so whoever reads it knows the rows. -/
  legible : ∀ rows', Row.Listed rows' text → rows' = rows
  /-- It is all that the rehearsal has printed, -/
  printed : next.console = session.console.print text
  /-- to the last byte if the device works. -/
  delivered : session.console.stdout.full = false →
    next.console.stdout.bytes.toList = session.console.stdout.bytes.toList ++ Utf8.encode text
  /-- There are as many rows as there were instructions that succeeded, up to where it has ended, -/
  length_eq : rows.length = (session.passed turns (.rehearse bounds)).length
  last : (session.state :: session.passed turns (.rehearse bounds)).getLast? = some next.state
  /-- and each of them tells of its own instruction. -/
  tells : ∀ k s t, (session.state :: session.passed turns (.rehearse bounds))[k]? = some s →
    (session.passed turns (.rehearse bounds))[k]? = some t →
    ∃ row : Row, rows[k]? = some row ∧ row.Tells session.code k s t
  /-- A row determines where the next one is. -/
  ip_eq : ∀ k row row', rows[k]? = some row → rows[k + 1]? = some row' →
    row'.before.ip = row.action.partner?.getD row.before.ip + 1
  /-- An instruction that fails is the one behind all rows, -/
  fails : ∀ fault, result = .error fault → fault.position?.isSome = true →
    rehearse session.code next.state = (.error fault, next.state)
  /-- a rehearsal that has used up its allowance has shown all of it, -/
  limited : ∀ limit, result = .error (.stepLimit limit) → rows.length = limit
  /-- and with the flag up nothing is shown. -/
  canceled : bounds.cancelable = true → session.console.canceled = true → rows = []
  /-- The bytes that the rows name are those that the same run writes if it has nothing to read. -/
  withheld : ∀ console : Console, console.Quiet session.console.canceled →
    ∃ last : Session α,
      ({ session with console } : Session α).call turns (.run bounds) = some (result, last)
        ∧ last.state = next.state
        ∧ last.console.collected.toList
          = console.collected.toList ++ rows.filterMap (·.action.byte?)

/-- **The table of a rehearsal is a faithful log**, from whatever state the rehearsal begins and
    however it ends. -/
theorem table_is_faithful (h : session.call turns (.rehearse bounds) = some (result, next)) :
    ∃ text rows, session.Tabulates bounds turns result next text rows := by
  obtain ⟨rows, hlogging, hlogged, hprinted⟩ := logging_of_call h
  have hlisted := Row.listed_table rows
  refine ⟨Row.table rows, rows, hlisted, ?_, hprinted, ?_, hlogged.length_eq, ?_, ?_, ?_, ?_, ?_,
    ?_, ?_⟩
  · intro rows' hlisted'
    exact hlisted'.unique hlisted
  · intro hworks
    rw [hprinted]
    exact (Stdout.print_of_working hworks _).bytes_eq
  · have htrail := session.trail_reached turns (.rehearse bounds)
    rw [reached_of_call h] at htrail
    exact htrail.getLast?_eq
  · intro k s t hs ht
    obtain ⟨row, hrow, htells⟩ := hlogged.tells hs ht
    rw [Nat.zero_add] at htells
    exact ⟨row, hrow, htells⟩
  · intro k row row' hrow hrow'
    exact hlogged.ip_eq hrow hrow'
  · rintro fault rfl hposition
    rcases rehearsal_run_eq_error hlogging rfl with ⟨hfails, -⟩ | rfl | rfl
    · exact hfails
    · cases hposition
    · cases hposition
  · rintro limit rfl
    rcases rehearsal_run_eq_error hlogging rfl with ⟨-, hposition⟩ | hcanceled | hlimit
    · cases hposition
    · cases hcanceled
    · exact (Fault.stepLimit.inj hlimit).symm
  · intro hcancelable hcanceled
    have hnone : session.passed turns (.rehearse bounds) = [] := by
      apply Engine.passed_of_canceled
      show (bounds.cancelable && session.console.canceled) = true
      rw [hcancelable, hcanceled]
      rfl
    rw [← List.length_eq_zero_iff, hlogged.length_eq, hnone]
    rfl
  · intro console hquiet
    exact call_of_logging hlogging hquiet

/-- Two turns of a loop, a line that is not there and an instruction that fails: ten rows, and the
    bytes 1 and 0. -/
theorem loop_is_tabulated :
    ∃ result next text rows,
      ({ code := Code.ofText "++[-.],<" } : Session).Tabulates
        { limit := some 20, cancelable := true } 20 result next text rows
      ∧ rows.length = 10 ∧ rows.filterMap (·.action.byte?) = [1, 0] := by
  have hcall : (({ code := Code.ofText "++[-.],<" } : Session).call 20
      (.rehearse { limit := some 20, cancelable := true })).isSome = true := rfl
  obtain ⟨⟨result, next⟩, hcall⟩ := Option.isSome_iff_exists.mp hcall
  obtain ⟨text, rows, htable⟩ := table_is_faithful hcall
  refine ⟨result, next, text, rows, htable, htable.length_eq, ?_⟩
  obtain ⟨last, hlast, -, hbytes⟩ := htable.withheld
    { collecting := true, script := some [] } ⟨⟨rfl, rfl⟩, rfl, rfl⟩
  have hcollected : last.console.collected = #[1, 0] :=
    (Option.some.inj (congrArg (Option.map fun (_, s) => s.console.collected) hlast)).symm
  rw [hcollected] at hbytes
  exact hbytes.symm

end Session

end Brainfuck
