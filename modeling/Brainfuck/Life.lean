/-
  Lives: what has become of a session since it was loaded.

  A call says how it ended and leaves a session.  More is told here, because statements about ALL
  that has ever happened need it:

  * the states a call has PASSED — the state behind each of its instructions that succeeded, in
    order (`Session.passed`); their number is the number of those instructions;
  * what a call that has not ended yet has made of the session so far (`Session.reached`);
  * the EVENTS of a life — the calls with their results and what they left in the console, and
    the changes made to the console between them, by which hooks are installed or replaced,
    flags are raised and input arrives.

  A call may be over before its first instruction, and a rehearsal prints the head of its table
  even then: `Call.stopped?` and `Call.announced` say what happens before there is any attempt.

  `first.Lives events passed s`: after these events `first` is `s`, and its machine has passed
  these states on the way.  Calls can follow each other in any order, after faults too.
-/
import Brainfuck.Session

namespace Brainfuck

/-! ## Before the first instruction -/

/-- What stops a call with these bounds before its first instruction, if anything does. -/
def Bounds.stopped? (b : Bounds) (console : Console) : Option Fault :=
  if b.cancelable && console.canceled then some .canceled
  else if b.limit = some 0 then some (.stepLimit 0)
  else none

/-- What stops a call before its first instruction; nothing stops a single step. -/
def Call.stopped? (console : Console) : Call → Option Fault
  | .step => none
  | .run bounds | .rehearse bounds => bounds.stopped? console

/-- The console at the first instruction: a rehearsal has printed the head of its table. -/
def Call.announced (console : Console) : Call → Console
  | .step | .run _ => console
  | .rehearse _ => console.print Row.header

/-! ## Calls and lives -/

/-- The states behind the turns that succeed, at most `turns` of them. -/
def Engine.passed {α ω : Type} (engine : Engine α ω) (control : Control ω) :
    Nat → Run α ω → List (State α)
  | 0, _ => []
  | turns + 1, run =>
    match engine.tick control run with
    | .running next => next.state :: Engine.passed engine control turns next
    | .ended _ _ => []

/-- What can be seen of a life from outside. -/
inductive Event
  | called (call : Call) (result : Except Fault Unit) (console : Console)
  | changed (console : Console)

namespace Session

variable {α : Type} [Cell α]

/-- A call ends like this, whatever number of turns it takes. -/
def Ends (s : Session α) (c : Call) (result : Except Fault Unit) (next : Session α) : Prop :=
  ∃ turns, s.call turns c = some (result, next)

/-- The states behind the instructions that succeed in a call. -/
def passed (turns : Nat) (s : Session α) : Call → List (State α)
  | .step =>
    if s.state.Finished s.code then []
    else
      match s.step with
      | (.ok (), next) => [next.state]
      | (.error _, _) => []
  | .run bounds =>
    (Engine.real Console.host s.code).passed bounds.control turns (Run.start s.state s.console)
  | .rehearse bounds =>
    (printing s.code).passed bounds.control turns
      (Run.start s.state (s.console.print Row.header))

/-- What a call has made of the session after at most `turns` turns, whether it has ended or
    not. -/
def reached (turns : Nat) (s : Session α) : Call → Session α
  | .step => s.step.2
  | .run bounds =>
    let run := (Engine.real Console.host s.code).run bounds.control turns
      (Run.start s.state s.console)
    { s with state := run.point.state, console := run.point.world }
  | .rehearse bounds =>
    let run := (printing s.code).run bounds.control turns
      (Run.start s.state (s.console.print Row.header))
    { s with state := run.point.state, console := run.point.world }

/-- After these events `first` has passed these states and is `s`. -/
inductive Lives (first : Session α) : List Event → List (State α) → Session α → Prop
  | fresh : Lives first [] [] first
  | call {events : List Event} {passed : List (State α)} {s next : Session α} {turns : Nat}
      {c : Call} {result : Except Fault Unit} (h : Lives first events passed s)
      (hcall : s.call turns c = some (result, next)) :
      Lives first (events ++ [.called c result next.console]) (passed ++ s.passed turns c) next
  | change {events : List Event} {passed : List (State α)} {s : Session α}
      (h : Lives first events passed s) (console : Console) :
      Lives first (events ++ [.changed console]) passed { s with console }

end Session

end Brainfuck
