/-
  Blame: a diagnostic points at the instruction that failed.

  Three things have to agree for that, and each is settled in its own place:

  1. The INSTRUCTION.  Only `<`, the brackets, `,` and `.` can fail, each with faults of its own
     (`Fault.Blames`).  What an instruction wants says so already (`effect_fits`), so it holds for
     both readers, and for every call that ends with a fault.  The flush at the end of a run is the
     one failure without an instruction, and it comes when the pointer is one past the last.
  2. The POSITION.  A fault carries a position in the program, and the text that is shown is the
     program written out, so the position counts its characters too (`toList_stripComments`).
  3. The COLUMN.  The window is cut off on the left by as much as the caret is moved there
     (`Diagnostic.getElem?_window`), near both ends of the program and far from them.

  What is said of a diagnostic here is said of the TEXT that is printed (`Diagnostic.PointsAt`):
  its last two lines are a line of the program and a caret below it, and the line above them begins
  with a message that fits the instruction (`Diagnostic.Says`).
-/
import Brainfuck.Diagnostic
import Brainfuck.Proofs.Strictness
import Brainfuck.Proofs.WellFormed

namespace Brainfuck

/-! ## Instructions that fail -/

/-- An instruction of this kind can fail like this.  A fault about a bracket quotes the bracket. -/
inductive Fault.Blames : Fault → Instruction → Prop
  | underflow {ip : Nat} : Blames (.underflow ip) .left
  | unmatched {ip : Nat} {side : Side} {i : Instruction}
      (hquoted : side.quoted = "'" ++ i.toChar.toString ++ "'") : Blames (.unmatched ip side) i
  | unread {ip : Nat} {reason : String} : Blames (.io ip reason) .input
  | unwritten {ip : Nat} {reason : String} : Blames (.io ip reason) .output

theorem Fault.blames_opening (ip : Nat) : (Fault.unmatched ip .opening).Blames .loopOpen :=
  .unmatched rfl

theorem Fault.blames_closing (ip : Nat) : (Fault.unmatched ip .closing).Blames .loopClose :=
  .unmatched rfl

section Machine

variable {α : Type} [Cell α] {σ ω : Type} {host : Host σ} {code : Code} {s t : State α}
  {fault : Fault} {i : Instruction}

/-- Whatever goes wrong in carrying out the effect is a fault of this instruction. -/
def Effect.Fits (i : Instruction) : Effect α → Prop
  | .done _ => True
  | .emit _ _ => i = .output
  | .ask _ => i = .input
  | .fault cause _ => cause.Blames i

theorem effect_fits (code : Code) (s : State α) (i : Instruction) : (effect code s i).Fits i := by
  cases i with
  | right => trivial
  | left =>
    rw [effect]
    split
    · trivial
    · exact .underflow
  | increment => trivial
  | decrement => trivial
  | output => exact rfl
  | input => exact rfl
  | loopOpen =>
    rw [effect]
    split
    · split
      · trivial
      · next u hu =>
        rw [Loops.eq_of_lookup_eq_error hu]
        exact Fault.blames_opening s.ip
    · trivial
  | loopClose =>
    rw [effect]
    split
    · split
      · trivial
      · next u hu =>
        rw [Loops.eq_of_lookup_eq_error hu]
        exact Fault.blames_closing s.ip
    · trivial

theorem blames_of_perform {e : Effect α} (hfits : e.Fits i) {w w' : σ}
    (h : e.perform host w = ⟨.error fault, t, w'⟩) : fault.Blames i := by
  cases e with
  | done next => cases h
  | emit byte here =>
    obtain rfl : i = .output := hfits
    rcases hwrite : host.write byte w with ⟨⟨reason⟩ | ⟨⟨⟩⟩, world⟩
    · rw [Effect.perform, hwrite] at h
      cases h
      exact .unwritten
    · rw [Effect.perform, hwrite] at h
      cases h
  | ask here =>
    obtain rfl : i = .input := hfits
    rcases hread : host.readLine w with ⟨⟨reason⟩ | ⟨line⟩, world⟩
    · rw [Effect.perform, hread] at h
      cases h
      exact .unread
    · rw [Effect.perform, hread] at h
      cases h
  | fault cause here =>
    cases h
    exact hfits

/-- The fault names the place where the machine stands, and belongs to the instruction there. -/
structure Fault.Names (fault : Fault) (code : Code) (s : State α) : Prop where
  position : fault.position? = some s.ip
  blames : ∃ i, code.program[s.ip]? = some i ∧ fault.Blames i

theorem names_of_attempt {w w' : σ} (h : attempt host code s w = ⟨.error fault, t, w'⟩) :
    fault.Names code s := by
  refine ⟨(attempt_eq_error h).2, ?_⟩
  rw [attempt] at h
  split at h
  · cases h
  · next i hi => exact ⟨i, hi, blames_of_perform (effect_fits code s i) h⟩

theorem names_of_rehearse (h : rehearse code s = (.error fault, t)) : fault.Names code s := by
  refine ⟨position?_of_rehearse_error h, ?_⟩
  obtain ⟨i, hi, heffect, -⟩ := effect_of_rehearse_error h
  have hfits := effect_fits code s i
  rw [heffect] at hfits
  exact ⟨i, hi, hfits⟩

/-- An engine whose faults name the place where they were raised. -/
def Engine.Accurate (engine : Engine α ω) : Prop :=
  ∀ {step : Nat} {s t : State α} {w w' : ω} {fault : Fault},
    engine.attempt step s w = ⟨.error fault, t, w'⟩ → fault.Names engine.code s

theorem Engine.real_accurate (host : Host σ) (code : Code) :
    (Engine.real host code : Engine α σ).Accurate :=
  fun h => names_of_attempt h

theorem Engine.rehearsal_accurate (log : Row → ω → ω) (code : Code) :
    (Engine.rehearsal log code : Engine α ω).Accurate :=
  fun h => names_of_rehearse (rehearse_of_rehearsal_attempt h)

/-- **A call that ends with a fault that has a position** has ended at an instruction that failed
    where the machine stands now, or in closing the run behind the last instruction. -/
theorem Engine.Accurate.of_run_eq_ended {engine : Engine α ω} (accurate : engine.Accurate)
    (lawful : engine.Lawful) {control : Control ω} {turns ip : Nat} {first last : Run α ω}
    (h : engine.run control turns first = .ended (.error fault) last)
    (hip : fault.position? = some ip) :
    fault.Names engine.code last.state
      ∨ last.state.Finished engine.code ∧ ∃ reason w, fault = .io last.state.ip reason
        ∧ engine.close w = (.error reason, last.world) := by
  rcases lawful.attempts_of_run_eq_ended h hip with ⟨_, _, -, hattempt⟩ | hclosed
  · exact .inl (accurate hattempt)
  · exact .inr hclosed

end Machine

/-! ## Messages -/

namespace Diagnostic

/-- How a diagnostic begins. -/
def heading (reporter : Option String) (fault : Fault) : String :=
  match reporter with
  | some name => name ++ ": " ++ summary fault
  | none => summary fault

/-- A message behind the name of the program that reports it, if there is one. -/
def headed (reporter : Option String) (message : String) : String :=
  match reporter with
  | some name => name ++ ": " ++ message
  | none => message

/-- What is to be said of a fault at an instruction with this character. -/
inductive Says : Fault → Char → String → Prop
  | underflow {ip : Nat} :
      Says (.underflow ip) '<' "Runtime error: tape underflow (cannot move left of cell 0)"
  | opening {ip : Nat} : Says (.unmatched ip .opening) '[' "Bracket error: unmatched bracket '['"
  | closing {ip : Nat} : Says (.unmatched ip .closing) ']' "Bracket error: unmatched bracket ']'"
  | unread {ip : Nat} {reason : String} : Says (.io ip reason) ',' ("I/O error: " ++ reason)
  | unwritten {ip : Nat} {reason : String} : Says (.io ip reason) '.' ("I/O error: " ++ reason)

/-- A message about a bracket ends with the bracket, in quotes. -/
theorem Says.quotes {ip : Nat} {side : Side} {c : Char} {message : String}
    (h : Says (.unmatched ip side) c message) :
    ∃ start, message = start ++ ("'" ++ c.toString ++ "'") := by
  cases h with
  | opening => exact ⟨"Bracket error: unmatched bracket ", rfl⟩
  | closing => exact ⟨"Bracket error: unmatched bracket ", rfl⟩

/-- **What is said of a fault fits its instruction.** -/
theorem says_summary {fault : Fault} {i : Instruction} (h : fault.Blames i) :
    Says fault i.toChar (summary fault) := by
  cases h with
  | underflow => exact .underflow
  | @unmatched ip side i hquoted =>
    have hquoted := congrArg String.toList hquoted
    cases side with
    | opening =>
      have hchar : '[' = i.toChar := by simpa [Side.quoted] using hquoted
      rw [← hchar]
      exact .opening
    | closing =>
      have hchar : ']' = i.toChar := by simpa [Side.quoted] using hquoted
      rw [← hchar]
      exact .closing
  | unread => exact .unread
  | unwritten => exact .unwritten

theorem heading_eq_headed (reporter : Option String) (fault : Fault) :
    heading reporter fault = headed reporter (summary fault) := by
  cases reporter <;> rfl

/-- The name in front of a message changes nothing of how it ends. -/
theorem headed_append (reporter : Option String) (start rest : String) :
    ∃ start', headed reporter (start ++ rest) = start' ++ rest := by
  cases reporter with
  | none => exact ⟨start, rfl⟩
  | some name => exact ⟨name ++ ": " ++ start, (String.append_assoc ..).symm⟩

/-- **The heading of a fault about a bracket ends with the bracket, in quotes.** -/
theorem heading_quotes (reporter : Option String) {ip : Nat} {side : Side} {i : Instruction}
    (h : (Fault.unmatched ip side).Blames i) :
    ∃ start, heading reporter (.unmatched ip side)
      = start ++ ("'" ++ i.toChar.toString ++ "'") := by
  obtain ⟨start, hstart⟩ := (says_summary h).quotes
  rw [heading_eq_headed, hstart]
  exact headed_append reporter start _

/-! ## Lines and columns -/

/-- A text with this heading, the number of a position, a line and below it a caret in some column,
    counted from the left edge. -/
structure PointsAt (shown heading : String) (position : Nat) (line : String) (column : Nat) :
    Prop where
  shown_eq : shown = heading ++ " at instruction " ++ toString position ++ "\n"
    ++ line ++ "\n" ++ (String.ofList (List.replicate column ' ') ++ "^") ++ "\n"
  newline_not_mem : '\n' ∉ line.toList

/-- Where the caret stands, behind the indent. -/
def column (position : Nat) : Nat := 2 + (position - windowStart position)

theorem toList_window (text : String) (position : Nat) :
    (window text position).toList
      = (text.toList.drop (windowStart position)).take
        (min (position + reach + 1) text.length - windowStart position) := by
  have hslice : Text.slice? text (Text.byteIndex text (windowStart position))
      (Text.byteIndex text (windowStop text position)) = some (window text position) :=
    (Option.some_get _).symm
  rw [Text.slice?_byteIndex text (windowStart_le_windowStop text position), List.drop_take]
    at hslice
  rw [← Option.some.inj hslice, String.toList_ofList]
  rfl

/-- **Above the caret stands the character at the position.** -/
theorem getElem?_window (text : String) {position : Nat} (h : position < text.toList.length) :
    ("  " ++ window text position).toList[column position]? = text.toList[position]? := by
  -- The window and the caret are both moved left by `windowStart`, which drops out.
  have hstart : windowStart position ≤ position := Nat.sub_le position reach
  have hindent : ("  " : String).toList.length = 2 := rfl
  rw [String.toList_append, column, List.getElem?_append_right (by omega), hindent,
    Nat.add_sub_cancel_left, toList_window, List.getElem?_take_of_lt, List.getElem?_drop]
  · congr 1
    omega
  · rw [String.length_toList] at h
    omega

/-- One past the last character there is nothing above the caret, and just before it there is. -/
theorem length_window (text : String) :
    ("  " ++ window text text.toList.length).toList.length = column text.toList.length := by
  have hindent : ("  " : String).toList.length = 2 := rfl
  rw [String.toList_append, List.length_append, hindent, column, toList_window, List.length_take,
    List.length_drop, ← String.length_toList]
  omega

/-- **What is printed for a fault with a position points at it.** -/
theorem pointsAt_render (reporter : Option String) {text : String} {fault : Fault} {ip : Nat}
    (hip : fault.position? = some ip) (htext : '\n' ∉ text.toList) :
    PointsAt (render false (ofFault reporter text fault)) (heading reporter fault) ip
      ("  " ++ window text ip) (column ip) := by
  constructor
  · have hmarker : "  " ++ marker ip = String.ofList (List.replicate (column ip) ' ') ++ "^" := by
      rw [marker, column, ← List.replicate_append_replicate, String.ofList_append,
        String.append_assoc]
      rfl
    unfold ofFault
    rw [hip, ← hmarker]
    show "" ++ heading reporter fault ++ (" at instruction " ++ toString ip ++ ("\n" ++ "  "))
      ++ window text ip ++ ("\n" ++ "  ") ++ marker ip ++ "\n" = _
    simp only [String.empty_append, String.append_assoc]
  · rw [String.toList_append, List.mem_append, toList_window]
    rintro (hindent | hwindow)
    · revert hindent
      decide
    · exact htext (List.mem_of_mem_drop (List.mem_of_mem_take hwindow))

example : render false (ofFault (some "bf") "+]" (.unmatched 1 .closing))
    = "bf: Bracket error: unmatched bracket ']' at instruction 1\n  +]\n   ^\n" := rfl

/-- Over a text without its comments, the diagnostic of a fault points at an instruction: its number
    is the place of the instruction, which the fault belongs to, and its character stands above the
    caret and, if it is a bracket, at the end of the heading. -/
structure Locates (reporter : Option String) (text : String) (fault : Fault) (ip : Nat)
    (i : Instruction) : Prop where
  instruction : (stripComments text).toList[ip]? = some i.toChar
  blames : fault.Blames i
  /-- The heading says what has gone wrong, behind the name of the program that reports it; -/
  wording : ∃ message, Says fault i.toChar message
    ∧ heading reporter fault = headed reporter message
  /-- about a bracket, it ends with the very bracket, in quotes. -/
  quotes : ∀ side, fault = .unmatched ip side →
    ∃ start, heading reporter fault = start ++ ("'" ++ i.toChar.toString ++ "'")
  pointsAt : ∃ line column,
    PointsAt (render false (ofFault reporter (stripComments text) fault)) (heading reporter fault)
      ip line column
    ∧ line.toList[column]? = some i.toChar

/-- The diagnostic points one past the last instruction. -/
structure LocatesEnd (reporter : Option String) (text : String) (fault : Fault) (ip : Nat) :
    Prop where
  ip_eq : ip = (stripComments text).toList.length
  wording : ∃ reason, fault = .io ip reason
    ∧ heading reporter fault = headed reporter ("I/O error: " ++ reason)
  pointsAt : ∃ line column,
    PointsAt (render false (ofFault reporter (stripComments text) fault)) (heading reporter fault)
      ip line column
    ∧ line.toList.length = column

variable {text : String} {fault : Fault} {ip : Nat} {i : Instruction}

theorem locates (reporter : Option String) (hip : fault.position? = some ip)
    (hi : (Program.ofText text)[ip]? = some i) (hblames : fault.Blames i) :
    Locates reporter text fault ip i := by
  have hchar : (stripComments text).toList[ip]? = some i.toChar := by
    rw [toList_stripComments, List.getElem?_map, hi]
    rfl
  refine ⟨hchar, hblames, ⟨_, says_summary hblames, heading_eq_headed reporter fault⟩, ?_, _, _,
    pointsAt_render reporter hip (newline_not_mem_stripComments text), ?_⟩
  · rintro side rfl
    exact heading_quotes reporter hblames
  · rw [getElem?_window _ (List.getElem?_eq_some_iff.mp hchar).1, hchar]

theorem locatesEnd (reporter : Option String) (reason : String)
    (hend : ip = (Program.ofText text).length) :
    LocatesEnd reporter text (.io ip reason) ip := by
  have hlength : ip = (stripComments text).toList.length := by
    rw [toList_stripComments, List.length_map, hend]
  refine ⟨hlength, ⟨reason, rfl, heading_eq_headed reporter _⟩, _, _,
    pointsAt_render reporter rfl (newline_not_mem_stripComments text), ?_⟩
  rw [hlength, length_window]

end Diagnostic

/-! ## Loading and checking -/

/-- A bracket without a partner is blamed where it stands. -/
theorem Program.Partnerless.blames {program : Program} {u : Unmatched}
    (h : program.Partnerless u) : ∃ i, program[u.index]? = some i ∧ u.toFault.Blames i := by
  cases h with
  | @stray j h => exact ⟨.loopClose, h.closing, Fault.blames_closing j⟩
  | @unclosed i h => exact ⟨.loopOpen, h.opening, Fault.blames_opening i⟩

theorem Program.Blamed.locates {text : String} {u : Unmatched} (h : (Program.ofText text).Blamed u)
    (reporter : Option String) : ∃ i, Diagnostic.Locates reporter text u.toFault u.index i := by
  obtain ⟨i, hi, hblames⟩ := (Program.blamed_iff.mp h).1.blames
  exact ⟨i, Diagnostic.locates reporter rfl hi hblames⟩

/-! ## Calls -/

namespace Session

variable {α : Type} [Cell α] {session next : Session α} {c : Call} {turns ip : Nat} {fault : Fault}
  {text : String} {events : List Event} {passed : List (State α)} {console : Console}

/-- The call is a run that came to the end of the program, and its output could not be flushed. -/
structure FlushFails (c : Call) (fault : Fault) (next : Session α) : Prop where
  finished : next.state.Finished next.code
  flush : ∃ bounds reason console, c = .run bounds ∧ fault = .io next.state.ip reason
    ∧ Console.flush console = (.error reason, next.console)

theorem names_of_call (h : session.call turns c = some (.error fault, next))
    (hip : fault.position? = some ip) :
    fault.Names next.code next.state ∨ FlushFails c fault next := by
  cases c with
  | step =>
    obtain ⟨hresult, rfl⟩ := Prod.mk.inj (Option.some.inj h)
    rcases hattempt : attempt Console.host session.code session.state session.console
      with ⟨result, t, console⟩
    rw [hattempt] at hresult
    obtain rfl : result = _ := hresult
    obtain ⟨rfl, -⟩ := attempt_eq_error hattempt
    exact .inl (names_of_attempt hattempt)
  | run bounds =>
    obtain ⟨last, hrun, rfl⟩ := exists_run_of_ended h
    have haccurate : (Engine.real Console.host session.code : Engine α Console).Accurate :=
      Engine.real_accurate _ _
    rcases haccurate.of_run_eq_ended (Engine.real_lawful _ _) hrun hip with
      hnames | ⟨hfinished, reason, console, hfault, hclose⟩
    · exact .inl hnames
    · exact .inr ⟨hfinished, bounds, reason, console, rfl, hfault, hclose⟩
  | rehearse bounds =>
    obtain ⟨last, hrun, rfl⟩ := exists_run_of_ended h
    have haccurate : (printing session.code : Engine α Console).Accurate :=
      Engine.rehearsal_accurate _ _
    rcases haccurate.of_run_eq_ended (Engine.rehearsal_lawful _ _) hrun hip with
      hnames | ⟨-, reason, console, -, hclose⟩
    · exact .inl hnames
    · nomatch hclose

/-- The pointer of a session is never more than one past the last instruction. -/
theorem Lives.ip_le_of_call
    (h : ({ code := Code.ofText text, console } : Session α).Lives events passed session)
    {result : Except Fault Unit} (hcall : session.call turns c = some (result, next)) :
    next.state.ip ≤ (Program.ofText text).length := by
  have htrail : Trail (Code.ofText text) State.initial _ next.state := (h.call hcall).trail
  have hle := htrail.ip_le (Nat.zero_le _)
  rw [Code.size, ← Array.length_toList, Code.program_ofText] at hle
  exact hle

/-- **A diagnostic points at the instruction that failed.**  Rendered over the text without its
    comments, the fault with which a text is refused by strict loading, or by checking its brackets,
    points at the bracket that is to blame.

    A fault that has a position and ends a call, in whatever state the session is, points at the
    instruction under the pointer, which the fault belongs to; only if a run could not flush its
    output at the end does it point one past the last instruction. -/
theorem diagnostics_point_at_failed_instruction (reporter : Option String) (text : String) :
    (∀ fault, Code.load text = .error fault →
      ∃ ip side i, fault = .unmatched ip side ∧ (Program.ofText text).Blamed ⟨ip, side⟩
        ∧ Diagnostic.Locates reporter text fault ip i)
    ∧ (∀ u, (Loops.ofProgram (Program.ofText text)).validate = .error u →
      ∃ i, (Program.ofText text).Blamed u ∧ Diagnostic.Locates reporter text u.toFault u.index i)
    ∧ ∀ (code : Code) (console : Console) (events : List Event) (passed : List (State α))
        (session next : Session α) (c : Call) (turns ip : Nat) (fault : Fault),
      (Code.load text = .ok code ∨ Code.ofText text = code) →
      ({ code, console } : Session α).Lives events passed session →
      session.call turns c = some (.error fault, next) → fault.position? = some ip →
      next.code.source = stripComments text ∧ next.state.ip = ip
      ∧ ((∃ i, Diagnostic.Locates reporter text fault ip i)
        ∨ FlushFails c fault next ∧ Diagnostic.LocatesEnd reporter text fault ip) := by
  refine ⟨?_, ?_, ?_⟩
  · intro fault hload
    obtain ⟨u, hvalidate, rfl⟩ := Code.load_eq_error_iff.mp hload
    have hblamed : (Program.ofText text).Blamed u := Loops.validate_eq_error_iff.mp hvalidate
    obtain ⟨i, hlocates⟩ := hblamed.locates reporter
    exact ⟨u.index, u.side, i, rfl, hblamed, hlocates⟩
  · intro u hvalidate
    have hblamed := Loops.validate_eq_error_iff.mp hvalidate
    obtain ⟨i, hlocates⟩ := hblamed.locates reporter
    exact ⟨i, hblamed, hlocates⟩
  · intro code console events passed session next c turns ip fault hcode hlives hcall hip
    obtain rfl := Code.eq_ofText hcode
    have hnext : next.code = Code.ofText text := (code_of_call hcall).trans hlives.code_eq
    refine ⟨by rw [hnext, Code.source_ofText], ?_⟩
    rcases names_of_call hcall hip with ⟨hposition, i, hi, hblames⟩ | hflush
    · obtain rfl : ip = next.state.ip := Option.some.inj (hip.symm.trans hposition)
      rw [hnext, ← Array.getElem?_toList, Code.program_ofText] at hi
      exact ⟨rfl, .inl ⟨i, Diagnostic.locates reporter hip hi hblames⟩⟩
    · -- The program is finished, and the pointer is never further than this.
      obtain ⟨bounds, reason, console', -, hfault, -⟩ := hflush.flush
      obtain rfl : ip = next.state.ip := by
        rw [hfault] at hip
        exact (Option.some.inj hip).symm
      have hle := hlives.ip_le_of_call hcall
      have hge : (Program.ofText text).length ≤ next.state.ip := by
        have hfinished := hflush.finished
        rw [hnext, State.Finished, Code.size, ← Array.length_toList, Code.program_ofText]
          at hfinished
        exact hfinished
      refine ⟨rfl, .inr ⟨hflush, ?_⟩⟩
      rw [hfault]
      exact Diagnostic.locatesEnd reporter reason (Nat.le_antisymm hle hge)

/-- A stray bracket that is refused, a move to the left that fails behind a comment, and a byte that
    never reaches its device. -/
theorem three_failures_are_located :
    (∃ i, Diagnostic.Locates (some "bf") "é]+" (.unmatched 0 .closing) 0 i)
      ∧ (∃ i, Diagnostic.Locates (some "bf") "+ é<" (.underflow 1) 1 i)
      ∧ Diagnostic.LocatesEnd none "+." (.io 2 Stdout.noSpace) 2 := by
  obtain ⟨hrefused, -, -⟩ :=
    diagnostics_point_at_failed_instruction (α := Word) (some "bf") "é]+"
  obtain ⟨-, -, hfailed⟩ :=
    diagnostics_point_at_failed_instruction (α := Word) (some "bf") "+ é<"
  obtain ⟨-, -, hunflushed⟩ :=
    diagnostics_point_at_failed_instruction (α := Word) none "+."
  have hunderflow : ({ code := Code.ofText "+ é<" } : Session).call 2 (.run {})
      = some (.error (.underflow 1),
        { code := Code.ofText "+ é<", state := { tape := Tape.blank.increment, ip := 1 } }) := rfl
  have hlost : ({ code := Code.ofText "+.", console := { stdout := { full := true } } } :
        Session).call 3 (.run {})
      = some (.error (.io 2 Stdout.noSpace),
        { code := Code.ofText "+.", state := { tape := Tape.blank.increment, ip := 2 },
          console := { stdout := { full := true, held := #[1] } } }) := rfl
  refine ⟨?_, ?_, ?_⟩
  · obtain ⟨ip, side, i, hfault, -, hlocates⟩ := hrefused (.unmatched 0 .closing) rfl
    obtain ⟨rfl, rfl⟩ := Fault.unmatched.inj hfault
    exact ⟨i, hlocates⟩
  · obtain ⟨-, -, hlocates | ⟨⟨-, _, _, _, -, hfault, -⟩, -⟩⟩ :=
      hfailed _ _ _ _ _ _ _ _ 1 _ (.inl rfl) .fresh hunderflow rfl
    · exact hlocates
    · nomatch hfault
  · obtain ⟨-, -, ⟨i, hlocates⟩ | ⟨-, hend⟩⟩ :=
      hunflushed _ _ _ _ _ _ _ _ 2 _ (.inr rfl) .fresh hlost rfl
    · nomatch hlocates.instruction
    · exact hend

end Session

end Brainfuck
