/-
  Waiting for a run.

  A run works on its own; whoever started it WAITS, looking again and again whether a result
  has come.  Each time none has, it looks at two more things: whether the run was asked to
  stop, which an interrupt from the keyboard does, and whether the deadline has passed.  The
  first of the three that it finds decides the verdict, and a verdict is final.

  A passed deadline asks the run to stop as well, by the same flag that an interrupt sets.  The
  two are not confused, because the verdict is reached in the same moment: a run that stops for
  that reason reports to nobody.

  Nothing fixes the order in which the run, the keyboard, the clock and the waiting side come to
  act, so `Step` lets any of them act at any time.
-/
import Brainfuck.Cli.Command

namespace Brainfuck.Cli

/-- What the waiting side concludes when no result has come, if it concludes anything. -/
def poll (stopRequested deadlinePassed : Bool) : Option Verdict :=
  if stopRequested then some .interrupted
  else if deadlinePassed then some .timedOut
  else none

/-- All that can change while a run is waited for. -/
structure Scene where
  /-- The run, or its result, which stays where it is until somebody looks. -/
  work : Progress Word Console
  /-- The flag that asks the run to stop. -/
  stopRequested : Bool := false
  /-- An interrupt has arrived. -/
  interrupted : Bool := false
  /-- There is a deadline and it has passed. -/
  deadlinePassed : Bool := false
  verdict : Option Verdict := none

namespace Scene

/-- A launch on some console, with nothing done yet. -/
def opening (l : Launch) (console : Console) : Scene := { work := .running (l.start console) }

/-- The run as it sees the flag now. -/
def heeding (flag : Bool) (run : Run Word Console) : Run Word Console :=
  { run with world := { run.world with canceled := flag } }

/-- One of the parties acts. -/
inductive Step (l : Launch) : Scene → Scene → Prop
  /-- The run takes a turn. -/
  | work (s : Scene) (run : Run Word Console) (h : s.work = .running run) :
      Step l s { s with work := l.run 1 (heeding s.stopRequested run) }
  /-- An interrupt arrives. -/
  | interrupt (s : Scene) : Step l s { s with stopRequested := true, interrupted := true }
  /-- The deadline passes. -/
  | expire (s : Scene) (h : l.settings.timeoutMs.isSome) :
      Step l s { s with deadlinePassed := true }
  /-- The result is found. -/
  | receive (s : Scene) (result : Except Fault Unit) (run : Run Word Console)
      (hwork : s.work = .ended result run) (hverdict : s.verdict = none) :
      Step l s { s with verdict := some (.finished result) }
  /-- No result is found in time, but a reason to stop waiting. -/
  | giveUp (s : Scene) (verdict : Verdict) (hverdict : s.verdict = none)
      (h : poll s.stopRequested s.deadlinePassed = some verdict) :
      Step l s { s with verdict := some verdict, stopRequested := true }

/-- What a scene can become. -/
inductive Reachable (l : Launch) (first : Scene) : Scene → Prop
  | here : Reachable l first first
  | step {s t : Scene} (hs : Reachable l first s) (h : Step l s t) : Reachable l first t

end Scene

end Brainfuck.Cli
