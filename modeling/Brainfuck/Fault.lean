/-
  What can go wrong while a program is loaded or run.

  A fault says its CAUSE; the wording is in `Fault.message` alone.  Three causes belong to an
  instruction and carry its position; the two ways in which a run is stopped from outside, the
  step limit and cancellation, have no position.
-/
import Brainfuck.Loops

namespace Brainfuck

inductive Fault
  /-- A `<` was attempted at cell 0. -/
  | underflow (ip : Nat)
  /-- A jump was attempted through a bracket that has no partner. -/
  | unmatched (ip : Nat) (side : Side)
  /-- Reading a line or writing a byte failed. -/
  | io (ip : Nat) (reason : String)
  /-- The run was stopped after its allowance of instructions. -/
  | stepLimit (limit : Nat)
  /-- The run was asked to stop. -/
  | canceled
  deriving DecidableEq

namespace Fault

/-- The instruction a fault belongs to, if it belongs to one. -/
def position? : Fault → Option Nat
  | underflow ip | unmatched ip _ | io ip _ => some ip
  | stepLimit _ | canceled => none

def message : Fault → String
  | underflow ip =>
    "Tape underflow at instruction " ++ toString ip ++ ": cannot move left of cell 0"
  | unmatched ip side =>
    "Unmatched bracket " ++ side.quoted ++ " at instruction " ++ toString ip
  | io ip reason => "I/O error at instruction " ++ toString ip ++ ": " ++ reason
  | stepLimit limit => "Execution aborted: step limit exceeded (" ++ toString limit ++ ")"
  | canceled => "Execution aborted: cancelled"

end Fault

/-- A bracket without a partner, as the fault of the instruction at its position. -/
def Unmatched.toFault (u : Unmatched) : Fault := .unmatched u.index u.side

end Brainfuck
