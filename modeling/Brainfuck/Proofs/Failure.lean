/-
  Failure: an instruction that fails has done nothing, and the fault says which one it was.

  An instruction can fail in five places, and a run has a sixth, the flush behind its last
  instruction.  Each call has its own way to all of them, so what they have in common is said of
  the ATTEMPT (`Session.Attempts`, `Call.attempt`), and calls are told from it in both directions:

  1. A call that ends with a fault that has a position has attempted the instruction under the
     pointer, and this is how the attempt went; or it is a run that could not be flushed
     (`Session.attempts_of_call`).
  2. A call that attempts an instruction which cannot be carried out ends there, and with this fault
     (`Session.failsAt_iff_defect`); what the machine cannot do is listed in `State.Defect`.
  3. The other failures are the host's, and only a real `,` or `.` calls on it
     (`Call.hostFails_of_attempt`).  A `,` that got no line has used up the request, and the next
     attempt makes a new one (`Session.Refused`, `Session.AsksForLine`).
-/
import Brainfuck.Proofs.Cancellation

namespace Brainfuck

variable {α : Type} [Cell α] {code : Code} {s t : State α} {console console' : Console}
  {fault : Fault} {c : Call} {step : Nat}

/-! ## Attempts -/

/-- A call that reads and writes. -/
def Call.IsReal : Call → Prop
  | .step | .run _ => True
  | .rehearse _ => False

/-- How a call attempts an instruction; the number is that of the instructions before it. -/
def Call.attempt (code : Code) (step : Nat) (s : State α) (console : Console) :
    Call → Outcome α Console
  | .step | .run _ => Brainfuck.attempt Console.host code s console
  | .rehearse _ => (Session.printing code).attempt step s console

theorem Call.attempt_of_isReal (h : c.IsReal) :
    c.attempt code step s console = Brainfuck.attempt Console.host code s console := by
  cases c with
  | step => rfl
  | run bounds => rfl
  | rehearse bounds => exact h.elim

/-- A machine that is stuck fails in every call. -/
theorem State.Stuck.call_attempt (h : s.Stuck code fault) (step : Nat) (console : Console)
    (c : Call) : c.attempt code step s console = ⟨.error fault, s, console⟩ := by
  cases c with
  | step => exact h.attempt_eq console
  | run bounds => exact h.attempt_eq console
  | rehearse bounds => exact rehearsal_attempt_of_error h.rehearse_eq

/-! ## The machine -/

/-- What is wrong with an instruction is a fault of the program. -/
theorem State.Defect.ofProgram (h : s.Defect code fault) : fault.OfProgram := by
  cases h with
  | underflow _ _ => trivial
  | unclosed _ _ _ => trivial
  | stray _ _ _ => trivial

theorem State.defect_underflow_iff {ip : Nat} :
    s.Defect code (.underflow ip)
      ↔ ip = s.ip ∧ code.program[ip]? = some .left ∧ s.tape.pointer = 0 := by
  constructor
  · intro h
    cases h with
    | underflow hi hpointer => exact ⟨rfl, hi, hpointer⟩
  · rintro ⟨rfl, hi, hpointer⟩
    exact .underflow hi hpointer

theorem State.defect_opening_iff {ip : Nat} :
    s.Defect code (.unmatched ip .opening)
      ↔ ip = s.ip ∧ code.program[ip]? = some .loopOpen
        ∧ (∀ j, ¬ Program.Closes code.program.toList ip j) ∧ s.tape.value = 0 := by
  constructor
  · intro h
    cases h with
    | unclosed hi hpartner hzero => exact ⟨rfl, hi, hpartner, hzero⟩
  · rintro ⟨rfl, hi, hpartner, hzero⟩
    exact .unclosed hi hpartner hzero

theorem State.defect_closing_iff {ip : Nat} :
    s.Defect code (.unmatched ip .closing)
      ↔ ip = s.ip ∧ code.program[ip]? = some .loopClose
        ∧ (∀ i, ¬ Program.Closes code.program.toList i ip) ∧ s.tape.value ≠ 0 := by
  constructor
  · intro h
    cases h with
    | stray hi hpartner hvalue => exact ⟨rfl, hi, hpartner, hvalue⟩
  · rintro ⟨rfl, hi, hpartner, hvalue⟩
    exact .stray hi hpartner hvalue

/-! ## The host -/

/-- The host fails to do what the instruction under the pointer wants of it. -/
inductive HostFails (code : Code) (s : State α) (console : Console) (reason : String) :
    Console → Prop
  | unread {console' : Console} (hi : code.program[s.ip]? = some .input)
      (hread : console.readLine = (.error reason, console')) :
      HostFails code s console reason console'
  | unwritten {console' : Console} (hi : code.program[s.ip]? = some .output)
      (hwrite : console.write (Cell.byte s.tape.cell) = (.error reason, console')) :
      HostFails code s console reason console'

/-- **Only the host of a real `,` or `.` fails in the middle of a call.** -/
theorem Call.hostFails_of_attempt {ip : Nat} {reason : String}
    (h : c.attempt code step s console = ⟨.error (.io ip reason), t, console'⟩) :
    c.IsReal ∧ HostFails code s console reason console' := by
  have hreal : c.IsReal := by
    cases c with
    | step => trivial
    | run bounds => trivial
    | rehearse bounds =>
      have hstuck := stuck_of_rehearse (rehearse_of_rehearsal_attempt h)
      exact (stuck_iff_defect.mp hstuck).ofProgram
  refine ⟨hreal, ?_⟩
  rw [Call.attempt_of_isReal hreal] at h
  obtain ⟨-, i, hi, hblames⟩ := names_of_attempt h
  rw [Brainfuck.attempt, hi] at h
  cases hblames with
  | unread =>
    have h : (Effect.ask s).perform Console.host console = _ := h
    rcases hread : console.readLine with ⟨⟨reason'⟩ | ⟨line⟩, after⟩
    · have hread : Console.host.readLine console = _ := hread
      rw [Effect.perform, hread] at h
      cases h
      exact .unread hi hread
    · have hread : Console.host.readLine console = _ := hread
      rw [Effect.perform, hread] at h
      cases h
  | unwritten =>
    have h : (Effect.emit (Cell.byte s.tape.cell) s).perform Console.host console = _ := h
    rcases hwrite : console.write (Cell.byte s.tape.cell) with ⟨⟨reason'⟩ | ⟨⟨⟩⟩, after⟩
    · have hwrite : Console.host.write (Cell.byte s.tape.cell) console = _ := hwrite
      rw [Effect.perform, hwrite] at h
      cases h
      exact .unwritten hi hwrite
    · have hwrite : Console.host.write (Cell.byte s.tape.cell) console = _ := hwrite
      rw [Effect.perform, hwrite] at h
      cases h

/-- The machine behind a `,` that got this answer. -/
def State.received (s : State α) : Except String (Option String) → State α
  | .ok line => { tape := s.tape.store (Line.answerCode line), ip := s.ip + 1 }
  | .error _ => s

/-- A script is asked for its next answer and used up by it. -/
theorem Console.readLine_of_script {answers : List Answer} (h : console.script = some answers) :
    (console.readLine).1 = (answers.headD .endOfInput).toExcept
      ∧ (console.readLine).2.script = some answers.tail := by
  rw [Console.readLine, h]
  exact ⟨rfl, rfl⟩

/-- Only a script with a failure in front fails. -/
theorem Console.script_of_readLine_error {answers : List Answer} {reason : String}
    (h : console.script = some answers) (hread : console.readLine = (.error reason, console')) :
    answers.head? = some (.failure reason) ∧ console'.script = some answers.tail := by
  obtain ⟨hanswer, hscript⟩ := Console.readLine_of_script h
  rw [hread] at hanswer hscript
  refine ⟨?_, hscript⟩
  cases answers with
  | nil => cases hanswer
  | cons answer rest =>
    cases answer with
    | line text => cases hanswer
    | endOfInput => cases hanswer
    | failure cause =>
      obtain rfl : reason = cause := Except.error.inj hanswer
      rfl

namespace Session

variable {session next : Session α} {turns ip : Nat} {events : List Event}
  {passed : List (State α)}

/-! ## Calls -/

/-- In the course of the call the instruction under the pointer of `s` is attempted, with this
    console. -/
def Attempts (session : Session α) (s : State α) (console : Console) : Call → Prop
  | .step => s = session.state ∧ console = session.console ∧ ¬ session.state.Finished session.code
  | .run bounds =>
    ∃ steps, (Engine.real Console.host session.code).Attempts bounds.control
      (Run.start session.state session.console) { state := s, world := console, steps }
  | .rehearse bounds =>
    ∃ steps, (printing session.code).Attempts bounds.control
      (Run.start session.state (session.console.print Row.header))
      { state := s, world := console, steps }

/-- The call ends with a fault at the instruction under the pointer of `s`. -/
def FailsAt (session : Session α) (c : Call) (s : State α) (fault : Fault) : Prop :=
  ∃ console, session.Ends c (.error fault) { session with state := s, console }

/-- **A call that ends with a fault that has a position** has attempted the instruction under the
    pointer, and this is how the attempt went; or it could not flush its output. -/
theorem attempts_of_call (h : session.call turns c = some (.error fault, next))
    (hip : fault.position? = some ip) :
    (∃ step console, session.Attempts next.state console c
        ∧ c.attempt session.code step next.state console
          = ⟨.error fault, next.state, next.console⟩)
      ∨ FlushFails c fault next := by
  cases c with
  | step =>
    obtain ⟨hresult, rfl⟩ := Prod.mk.inj (Option.some.inj h)
    rcases hattempt : attempt Console.host session.code session.state session.console
      with ⟨result, t, console⟩
    rw [hattempt] at hresult
    obtain rfl : result = _ := hresult
    obtain ⟨rfl, -⟩ := attempt_eq_error hattempt
    refine .inl ⟨0, session.console, ⟨rfl, rfl, ?_⟩, hattempt⟩
    intro hfinished
    rw [attempt_of_finished hfinished] at hattempt
    cases hattempt
  | run bounds =>
    obtain ⟨last, hrun, rfl⟩ := exists_run_of_ended h
    rcases (Engine.real_lawful _ _).attempts_of_run_eq_ended hrun hip with
      ⟨steps, console, hattempts, hattempt⟩ | ⟨hfinished, reason, console, hfault, hclose⟩
    · exact .inl ⟨steps, console, ⟨steps, hattempts⟩, hattempt⟩
    · exact .inr ⟨hfinished, bounds, reason, console, rfl, hfault, hclose⟩
  | rehearse bounds =>
    obtain ⟨last, hrun, rfl⟩ := exists_run_of_ended h
    rcases (Engine.rehearsal_lawful _ _).attempts_of_run_eq_ended hrun hip with
      ⟨steps, console, hattempts, hattempt⟩ | ⟨-, reason, console, -, hclose⟩
    · exact .inl ⟨steps, console, ⟨steps, hattempts⟩, hattempt⟩
    · nomatch hclose

/-- A call ends at the first instruction that cannot be carried out. -/
theorem Attempts.failsAt (h : session.Attempts s console c) (hstuck : s.Stuck session.code fault) :
    session.FailsAt c s fault := by
  cases c with
  | step =>
    obtain ⟨rfl, rfl, -⟩ := h
    have hattempt : attempt Console.host session.code session.state session.console = _ :=
      hstuck.attempt_eq session.console
    refine ⟨session.console, 0, ?_⟩
    rw [call, Session.step, hattempt]
  | run bounds =>
    obtain ⟨steps, hattempts⟩ := h
    obtain ⟨turns, hends⟩ := hattempts.ends (hstuck.call_attempt steps console (.run bounds))
    refine ⟨console, turns, ?_⟩
    rw [call, ended, hends]
    rfl
  | rehearse bounds =>
    obtain ⟨steps, hattempts⟩ := h
    obtain ⟨turns, hends⟩ := hattempts.ends (hstuck.call_attempt steps console (.rehearse bounds))
    refine ⟨console, turns, ?_⟩
    rw [call, ended, hends]
    rfl

/-- **What is attempted fails with a fault of the program exactly if there is such a thing wrong with
    it.** -/
theorem failsAt_iff_defect (h : session.Attempts s console c) (hfault : fault.OfProgram) :
    session.FailsAt c s fault ↔ s.Defect session.code fault := by
  rw [← stuck_iff_defect]
  constructor
  · rintro ⟨_, hends⟩
    exact stuck_of_ends hends hfault
  · exact h.failsAt

/-! ## Asking again -/

/-- A `,` of the call got no line for this reason, and the request is used up. -/
def Refused (session : Session α) (c : Call) (reason : String) (next : Session α) : Prop :=
  ∃ before, session.Attempts next.state before c
    ∧ before.readLine = (.error reason, next.console)
    ∧ ∀ answers, before.script = some answers →
      answers.head? = some (.failure reason) ∧ next.console.script = some answers.tail

/-- Whatever console it finds, a real call begins by asking it for a line and stores that; a script
    gives the next answer that it has. -/
def AsksForLine (session : Session α) : Prop :=
  ∀ (console : Console) (c : Call), c.IsReal → c.stopped? console = none →
    ({ session with console } : Session α).reached 1 c
      = { session with state := session.state.received (console.readLine).1,
                       console := (console.readLine).2 }
    ∧ ∀ answers, console.script = some answers →
      (console.readLine).1 = (answers.headD .endOfInput).toExcept
      ∧ (console.readLine).2.script = some answers.tail

/-- **A real call that begins with a `,` asks for a line and stores it**; without a line it leaves
    the machine alone. -/
theorem reached_one_of_input (hreal : c.IsReal) (hstopped : c.stopped? session.console = none)
    (hi : session.code.program[session.state.ip]? = some .input) :
    session.reached 1 c = { session with
      state := session.state.received (session.console.readLine).1
      console := (session.console.readLine).2 } := by
  rcases hread : session.console.readLine with ⟨answer, after⟩
  have hread : Console.host.readLine session.console = (answer, after) := hread
  obtain ⟨result, hcall⟩ : ∃ result, HostCall Console.host session.code session.state
      session.console ⟨result, session.state.received answer, after⟩ := by
    rcases answer with ⟨reason⟩ | ⟨line⟩
    · exact ⟨_, .refused hi hread⟩
    · exact ⟨_, .stored hi hread⟩
  have hattempt := hcall.attempt_eq
  cases c with
  | step =>
    rw [reached, step, hattempt]
  | run bounds =>
    have hadmits : bounds.control.Admits (Run.start session.state session.console) :=
      Bounds.admits_of_stopped? hstopped
    rcases result with ⟨fault⟩ | ⟨⟨⟩⟩
    · have hturn : (Engine.real Console.host session.code).Turn bounds.control
          (Run.start session.state session.console) _ := .failed hcall.unfinished hadmits hattempt
      rw [reached, Engine.run, hturn.tick_eq]
      rfl
    · have hturn : (Engine.real Console.host session.code).Turn bounds.control
          (Run.start session.state session.console) _ := .succeeded hcall.unfinished hadmits hattempt
      rw [reached, Engine.run, hturn.tick_eq]
      rfl
  | rehearse bounds => exact hreal.elim

theorem asksForLine_of_input (hi : session.code.program[session.state.ip]? = some .input) :
    session.AsksForLine := by
  intro console c hreal hstopped
  refine ⟨reached_one_of_input hreal hstopped hi, ?_⟩
  intro answers hscript
  exact Console.readLine_of_script hscript

/-! ## The faults of a life -/

/-- The machine of a call that has failed is the one behind the last instruction that succeeded, in
    this call or in one before it. -/
theorem Lives.getLast?_passed {code : Code} {console : Console}
    (h : ({ code, console } : Session α).Lives events passed session)
    (hcall : session.call turns c = some (.error fault, next)) :
    (State.initial :: (passed ++ session.passed turns c)).getLast? = some next.state :=
  (h.call hcall).trail.getLast?_eq

/-- A fault that has a position has that of the pointer. -/
theorem ip_eq_of_call (h : session.call turns c = some (.error fault, next))
    (hip : fault.position? = some ip) : next.state.ip = ip := by
  rcases names_of_call h hip with hnames | hflush
  · exact Option.some.inj (hnames.position.symm.trans hip)
  · obtain ⟨_, _, _, -, rfl, -⟩ := hflush.flush
    exact Option.some.inj hip

/-- A run that could not be flushed is one past the last instruction. -/
theorem Lives.ip_eq_size_of_flushFails {code : Code} {console : Console}
    (h : ({ code, console } : Session α).Lives events passed session)
    (hcall : session.call turns c = some (.error fault, next)) (hflush : FlushFails c fault next) :
    next.state.ip = code.size := by
  have htrail : Trail code State.initial _ next.state := (h.call hcall).trail
  have hfinished : next.state.Finished code := by
    have hcode : next.code = code := (h.call hcall).code_eq
    rw [← hcode]
    exact hflush.finished
  exact Nat.le_antisymm (htrail.ip_le (Nat.zero_le _)) hfinished

/-- The host has failed at an instruction of a real call, or at the flush. -/
theorem hostFails_of_call {reason : String}
    (h : session.call turns c = some (.error (.io ip reason), next)) :
    (c.IsReal ∧ ∃ console, session.Attempts next.state console c
        ∧ HostFails session.code next.state console reason next.console)
      ∨ FlushFails c (.io ip reason) next := by
  rcases attempts_of_call h rfl with ⟨step, console, hattempts, hattempt⟩ | hflush
  · obtain ⟨hreal, hfails⟩ := Call.hostFails_of_attempt hattempt
    exact .inl ⟨hreal, console, hattempts, hfails⟩
  · exact .inr hflush

/-- **A failing instruction has done nothing, and its fault says which one it was.**  For every call
    of a session, at any time of its life, that ends with a fault:

    * the machine is the one behind the last instruction that succeeded, and a position in the fault
      is the one of the pointer;
    * reading and writing fail only at a `,` or a `.` that is not rehearsed, or at the flush of a
      run, one past the last instruction;
    * a `,` that got no line has left its cell as it is and used up this one request; a real call
      after it begins by asking for a line again.

    And of the instructions that a call attempts, exactly a `<` at cell 0 fails with an underflow,
    and exactly the brackets without a partner that would have to be jumped through fail as
    unmatched. -/
theorem failures_are_atomic_and_identified {code : Code} {console : Console}
    (h : ({ code, console } : Session α).Lives events passed session) (c : Call) :
    (∀ turns fault next, session.call turns c = some (.error fault, next) →
      (State.initial :: (passed ++ session.passed turns c)).getLast? = some next.state
      ∧ (∀ ip, fault.position? = some ip → next.state.ip = ip)
      ∧ ∀ ip reason, fault = .io ip reason →
        (c.IsReal ∧ (code.program[ip]? = some .input ∨ code.program[ip]? = some .output)
          ∨ FlushFails c fault next ∧ ip = code.size)
        ∧ (code.program[ip]? = some .input → session.Refused c reason next ∧ next.AsksForLine))
    ∧ ∀ s console, session.Attempts s console c →
      (∀ ip, session.FailsAt c s (.underflow ip)
        ↔ ip = s.ip ∧ code.program[ip]? = some .left ∧ s.tape.pointer = 0)
      ∧ (∀ ip, session.FailsAt c s (.unmatched ip .opening)
        ↔ ip = s.ip ∧ code.program[ip]? = some .loopOpen
          ∧ (∀ j, ¬ Program.Closes code.program.toList ip j) ∧ s.tape.value = 0)
      ∧ (∀ ip, session.FailsAt c s (.unmatched ip .closing)
        ↔ ip = s.ip ∧ code.program[ip]? = some .loopClose
          ∧ (∀ i, ¬ Program.Closes code.program.toList i ip) ∧ s.tape.value ≠ 0) := by
  have hcode : session.code = code := h.code_eq
  refine ⟨?_, ?_⟩
  · intro turns fault next hcall
    refine ⟨h.getLast?_passed hcall, fun ip => ip_eq_of_call hcall, ?_⟩
    rintro ip reason rfl
    have hip : next.state.ip = ip := ip_eq_of_call hcall rfl
    have hnext : next.code = code := (code_of_call hcall).trans hcode
    rcases hostFails_of_call hcall with ⟨hreal, before, hattempts, hfails⟩ | hflush
    · rw [hcode] at hfails
      cases hfails with
      | unread hi hread =>
        rw [hip] at hi
        refine ⟨.inl ⟨hreal, .inl hi⟩, fun _ => ⟨⟨before, hattempts, hread, ?_⟩, ?_⟩⟩
        · exact fun answers hscript => Console.script_of_readLine_error hscript hread
        · rw [← hnext, ← hip] at hi
          exact asksForLine_of_input hi
      | unwritten hi hwrite =>
        rw [hip] at hi
        refine ⟨.inl ⟨hreal, .inr hi⟩, fun hinput => ?_⟩
        nomatch hi.symm.trans hinput
    · have hsize : ip = code.size := hip.symm.trans (h.ip_eq_size_of_flushFails hcall hflush)
      -- Behind the last instruction there is no `,`.
      refine ⟨.inr ⟨hflush, hsize⟩, fun hinput => ?_⟩
      have hnone : code.program[ip]? = none := Array.getElem?_eq_none (Nat.le_of_eq hsize.symm)
      nomatch hnone.symm.trans hinput
  · intro s console hattempts
    refine ⟨fun ip => ?_, fun ip => ?_, fun ip => ?_⟩
    · have hfault : (Fault.underflow ip).OfProgram := trivial
      rw [failsAt_iff_defect hattempts hfault, hcode]
      exact State.defect_underflow_iff
    · have hfault : (Fault.unmatched ip .opening).OfProgram := trivial
      rw [failsAt_iff_defect hattempts hfault, hcode]
      exact State.defect_opening_iff
    · have hfault : (Fault.unmatched ip .closing).OfProgram := trivial
      rw [failsAt_iff_defect hattempts hfault, hcode]
      exact State.defect_closing_iff

/-- A script that fails at first and then answers with a letter, and a `<` behind it that fails too:
    the letter goes to the cell that the `,` was at before, and the rehearsal that follows it ends at
    the `<`. -/
theorem unread_line_and_underflow :
    ({ code := Code.ofText ",<", console := { script := some [.line "A"], asked := 1 } } :
        Session).reached 1 .step
      = { code := Code.ofText ",<", state := { tape := Tape.blank.store 65, ip := 1 },
          console := { script := some [], asked := 2 } }
    ∧ ({ code := Code.ofText ",<", state := { tape := Tape.blank.store 65, ip := 1 },
         console := { script := some [], asked := 2 } } : Session).FailsAt (.rehearse {})
        { tape := Tape.blank.store 65, ip := 1 } (.underflow 1) := by
  have hunread :
      ({ code := Code.ofText ",<", console := { script := some [.failure "gone", .line "A"] } } :
          Session).call 1 (.run {})
        = some (.error (.io 0 "gone"),
          { code := Code.ofText ",<", console := { script := some [.line "A"], asked := 1 } }) := rfl
  have hstored :
      ({ code := Code.ofText ",<", console := { script := some [.line "A"], asked := 1 } } :
          Session).call 0 .step
        = some (.ok (),
          { code := Code.ofText ",<", state := { tape := Tape.blank.store 65, ip := 1 },
            console := { script := some [], asked := 2 } }) := rfl
  obtain ⟨hfaults, -⟩ := failures_are_atomic_and_identified (α := Word) .fresh (.run {})
  obtain ⟨-, -, hio⟩ := hfaults _ _ _ hunread
  obtain ⟨-, hinput⟩ := hio 0 "gone" rfl
  obtain ⟨-, hagain⟩ := hinput rfl
  obtain ⟨-, hattempted⟩ := failures_are_atomic_and_identified
    ((Lives.fresh.call hunread).call hstored) (.rehearse {})
  refine ⟨(hagain { script := some [.line "A"], asked := 1 } .step trivial rfl).1, ?_⟩
  obtain ⟨hunderflow, -, -⟩ := hattempted { tape := Tape.blank.store 65, ip := 1 } _
    ⟨0, ⟨0, rfl⟩, by decide, rfl, nofun⟩
  exact (hunderflow 1).mpr ⟨rfl, rfl, rfl⟩

end Session

end Brainfuck
