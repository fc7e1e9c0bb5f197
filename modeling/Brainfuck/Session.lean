/-
  Sessions: loaded code, the state it has reached and a console, over any number of calls.

  Three kinds of call execute instructions: a single step, a real run and a rehearsal.  The
  last two may be bounded by a number of instructions and may be cancelable.  Calls can follow
  each other in any order, after a fault too: a failed instruction is still under the pointer
  and the next call attempts it again.

  A rehearsal prints its table to standard output, header first, and touches neither script
  nor collector.

  A session has words in its cells unless it is said what else (`Session Int`).
-/
import Brainfuck.Console

namespace Brainfuck

/-- What may stop a run from outside. -/
structure Bounds where
  limit : Option Nat := none
  /-- Whether the console's flag is heeded. -/
  cancelable : Bool := false

def Bounds.control (b : Bounds) : Control Console where
  limit := b.limit
  canceled console := b.cancelable && console.canceled

/-- A call that executes instructions. -/
inductive Call
  | step
  | run (bounds : Bounds)
  | rehearse (bounds : Bounds)

structure Session (α : Type := Word) [Cell α] where
  code : Code
  state : State α := State.initial
  console : Console := {}

namespace Session

variable {α : Type} [Cell α]

/-- A single step; nothing happens once the program is finished. -/
def step (s : Session α) : Except Fault Unit × Session α :=
  let o := attempt Console.host s.code s.state s.console
  (o.result, { s with state := o.state, console := o.world })

/-- Single steps, up to the first fault. -/
def steps : Nat → Session α → Except Fault Unit × Session α
  | 0, s => (.ok (), s)
  | n + 1, s =>
    match s.step with
    | (.ok (), s) => steps n s
    | (.error fault, s) => (.error fault, s)

/-- A rehearsal that prints each row as soon as its instruction is done. -/
def printing (code : Code) : Engine α Console :=
  Engine.rehearsal (fun row console => console.print row.render) code

/-- How a call ended, or nothing if it is still running. -/
def ended (code : Code) (progress : Progress α Console) :
    Option (Except Fault Unit × Session α) :=
  progress.outcome?.map fun o => (o.result, { code, state := o.state, console := o.world })

/-- Make a call.  A run or a rehearsal makes at most `turns` turns, and there is no answer if
    it has not ended by then. -/
def call (turns : Nat) (s : Session α) : Call → Option (Except Fault Unit × Session α)
  | .step => some s.step
  | .run bounds =>
    ended s.code <| (Engine.real Console.host s.code).run bounds.control turns
      (Run.start s.state s.console)
  | .rehearse bounds =>
    ended s.code <| (printing s.code).run bounds.control turns
      (Run.start s.state (s.console.print Row.header))

end Session

end Brainfuck
