/-
  The table a rehearsal prints: one row for every instruction that succeeded.

  A row shows the machine BEFORE its instruction — instruction pointer, data pointer and
  current cell — and then says in words what the instruction did, in terms of the state AFTER
  it.  Both states enter as snapshots, so a row holds no tape and can be kept for ever.

      STEP | IP  | PTR | CELL | INSTR | ACTION
      -----+-----+-----+------+-------+------------------------------------------------
      0    | 0   | 0   | 0    |  +    | Increment cell[0] from 0 to 1
-/
import Brainfuck.Machine

namespace Brainfuck

/-! ## Snapshots and actions -/

/-- What a row shows of a state. -/
structure Snapshot where
  ip : Nat
  pointer : Nat
  cell : Int
  deriving DecidableEq

def State.snapshot {α : Type} [Cell α] (s : State α) : Snapshot where
  ip := s.ip
  pointer := s.tape.pointer
  cell := s.tape.value

/-- What an instruction did. -/
inductive Action
  | moved (pointer : Nat)
  | incremented (pointer : Nat) (before after : Int)
  | decremented (pointer : Nat) (before after : Int)
  | withheld (byte : UInt8)
  | readNothing
  | jumpedForward (close : Nat)
  | entered
  | jumpedBack (opening : Nat)
  | exited
  deriving DecidableEq

namespace Action

/-- What a successful instruction did, told from the states around it.  A jump has left the
    pointer one past the partner bracket. -/
def between (before after : Snapshot) : Instruction → Action
  | .right | .left => .moved after.pointer
  | .increment => .incremented after.pointer before.cell after.cell
  | .decrement => .decremented after.pointer before.cell after.cell
  | .output => .withheld (Cell.byte before.cell)
  | .input => .readNothing
  | .loopOpen => if before.cell = 0 then .jumpedForward (after.ip - 1) else .entered
  | .loopClose => if before.cell ≠ 0 then .jumpedBack (after.ip - 1) else .exited

def describe : Action → String
  | moved pointer => "Moved pointer head to index " ++ toString pointer
  | incremented pointer before after =>
    "Increment cell[" ++ toString pointer ++ "] from " ++ toString before
      ++ " to " ++ toString after
  | decremented pointer before after =>
    "Decrement cell[" ++ toString pointer ++ "] from " ++ toString before
      ++ " to " ++ toString after
  | withheld byte => "Output byte " ++ toString byte.toNat ++ " (suppressed in debug)"
  | readNothing => "Read line -> simulated EOF (set cell to 0)"
  | jumpedForward close =>
    "Cell is 0; jump forward to matching ']' at IP " ++ toString close
  | entered => "Enter loop (cell != 0)"
  | jumpedBack opening =>
    "Cell != 0; jump back to matching '[' at IP " ++ toString opening
  | exited => "Exit loop (cell is 0)"

end Action

/-! ## Rows -/

structure Row where
  /-- How many instructions of the same run came before. -/
  step : Nat
  before : Snapshot
  instruction : Instruction
  action : Action
  deriving DecidableEq

namespace Row

/-- Text filled up with blanks on the right; longer text is kept whole. -/
def column (width : Nat) (text : String) : String :=
  text ++ String.ofList (List.replicate (width - text.length) ' ')

/-- The two lines above the first row. -/
def header : String :=
  "STEP | IP  | PTR | CELL | INSTR | ACTION\n"
    ++ "-----+-----+-----+------+-------+------------------------------------------------\n"

def render (r : Row) : String :=
  column 4 (toString r.step) ++ " | "
    ++ column 3 (toString r.before.ip) ++ " | "
    ++ column 3 (toString r.before.pointer) ++ " | "
    ++ column 4 (toString r.before.cell) ++ " |  "
    ++ r.instruction.toChar.toString ++ "    | "
    ++ r.action.describe ++ "\n"

end Row

end Brainfuck
