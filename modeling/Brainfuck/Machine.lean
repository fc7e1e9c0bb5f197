/-
  The machine: what one instruction does.

  A STATE is a tape and an instruction pointer.  Six of the eight instructions concern the
  state alone; `.` hands a byte to the outside and `,` asks it for a line.  `effect` says what
  an instruction wants — it is the one place where the instructions are told apart — and two
  readers carry it out:

  * `attempt`  — a REAL run: bytes are written to a host and lines are read from it;
  * `rehearse` — a REHEARSAL: nothing is written, and every request for a line is answered as
                 at the end of the input.

  **Failure is atomic.**  A fault comes with the state in which the instruction was attempted:
  the tape as it was and the pointer still on the instruction, so that the next attempt meets
  the same instruction again.

  A jump leaves the pointer one past the partner bracket, like every other instruction leaves
  it one past itself: a taken `[` continues behind its `]`, a taken `]` at the first
  instruction of the body.
-/
import Brainfuck.Code
import Brainfuck.Line
import Brainfuck.Tape

namespace Brainfuck

/-! ## States -/

structure State (α : Type) where
  tape : Tape α
  ip : Nat := 0

namespace State

/-- A blank tape, before the first instruction. -/
def initial {α : Type} [Cell α] : State α := { tape := Tape.blank }

instance {α : Type} [Cell α] : Inhabited (State α) := ⟨initial⟩

/-- On to the next instruction. -/
def advance {α : Type} (s : State α) : State α := { s with ip := s.ip + 1 }

/-- On to the instruction behind a partner bracket. -/
def jump {α : Type} (s : State α) (partner : Nat) : State α := { s with ip := partner + 1 }

/-- The instruction pointer has run off the end of the program. -/
def Finished {α : Type} (code : Code) (s : State α) : Prop := code.size ≤ s.ip

instance {α : Type} (code : Code) (s : State α) : Decidable (s.Finished code) :=
  inferInstanceAs (Decidable (code.size ≤ s.ip))

end State

/-! ## What an instruction wants -/

inductive Effect (α : Type)
  /-- All done; this is the state after it. -/
  | done (next : State α)
  /-- A byte is to be written. -/
  | emit (byte : UInt8) (here : State α)
  /-- A line is to be read into the current cell. -/
  | ask (here : State α)
  | fault (cause : Fault) (here : State α)

variable {α : Type} [Cell α]

/-- The effect of one instruction in a state whose pointer is on it. -/
def effect (code : Code) (s : State α) : Instruction → Effect α
  | .right => .done { tape := s.tape.moveRight, ip := s.ip + 1 }
  | .left =>
    match s.tape.moveLeft with
    | .ok tape => .done { tape, ip := s.ip + 1 }
    | .error .leftOfZero => .fault (.underflow s.ip) s
  | .increment => .done { tape := s.tape.increment, ip := s.ip + 1 }
  | .decrement => .done { tape := s.tape.decrement, ip := s.ip + 1 }
  | .output => .emit (Cell.byte s.tape.cell) s
  | .input => .ask s
  | .loopOpen =>
    if s.tape.value = 0 then
      match code.loops.closeOf s.ip with
      | .ok partner => .done (s.jump partner)
      | .error u => .fault u.toFault s
    else .done s.advance
  | .loopClose =>
    if s.tape.value ≠ 0 then
      match code.loops.openOf s.ip with
      | .ok partner => .done (s.jump partner)
      | .error u => .fault u.toFault s
    else .done s.advance

/-! ## Carrying it out -/

/-- The outside of a running program, with a state `σ` of its own.  Each of its three services
    may fail, for a reason that is shown to the user. -/
structure Host (σ : Type) where
  write : UInt8 → σ → Except String Unit × σ
  /-- The next line, or nothing at the end of the input. -/
  readLine : σ → Except String (Option String) × σ
  flush : σ → Except String Unit × σ

/-- How something ended, and the machine and the world after it. -/
structure Outcome (α ω : Type) where
  result : Except Fault Unit
  state : State α
  world : ω

/-- Carry out what an instruction wants, against a host. -/
def Effect.perform {σ : Type} (host : Host σ) (world : σ) : Effect α → Outcome α σ
  | .done next => ⟨.ok (), next, world⟩
  | .emit byte here =>
    match host.write byte world with
    | (.ok (), world) => ⟨.ok (), here.advance, world⟩
    | (.error reason, world) => ⟨.error (.io here.ip reason), here, world⟩
  | .ask here =>
    match host.readLine world with
    | (.ok line, world) =>
      ⟨.ok (), { tape := here.tape.store (Line.answerCode line), ip := here.ip + 1 }, world⟩
    | (.error reason, world) => ⟨.error (.io here.ip reason), here, world⟩
  | .fault cause here => ⟨.error cause, here, world⟩

/-- Carry out what an instruction wants without any input or output. -/
def Effect.suppress : Effect α → Except Fault Unit × State α
  | .done next => (.ok (), next)
  | .emit _ here => (.ok (), here.advance)
  | .ask here => (.ok (), { tape := here.tape.reset, ip := here.ip + 1 })
  | .fault cause here => (.error cause, here)

/-- **One step of a real run**: the instruction under the pointer, if there is one left. -/
def attempt {σ : Type} (host : Host σ) (code : Code) (s : State α) (world : σ) : Outcome α σ :=
  match code.program[s.ip]? with
  | none => ⟨.ok (), s, world⟩
  | some i => (effect code s i).perform host world

/-- **One step of a rehearsal**: as `attempt`, with no outside at all. -/
def rehearse (code : Code) (s : State α) : Except Fault Unit × State α :=
  match code.program[s.ip]? with
  | none => (.ok (), s)
  | some i => (effect code s i).suppress

end Brainfuck
