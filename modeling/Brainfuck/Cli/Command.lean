/-
  The commands: what is printed for a command line, and with which exit status.

  Everything up to the point at which a program starts to run is decided here from the command
  line and the world alone: usage, code that cannot be read, code that is refused.  `check`
  ends there in any case.  `run` may get as far as a LAUNCH, a program that is ready to run;
  how it ended is a VERDICT, and the verdict decides the rest of the report.

  The exit status is 0 for success, 1 for a fault, 2 for a command line that is refused and
  130 for a run that was interrupted.
-/
import Brainfuck.Cli.Usage
import Brainfuck.Diagnostic
import Brainfuck.Resolution
import Brainfuck.Session

namespace Brainfuck.Cli

/-- What a command leaves behind. -/
structure Report where
  exit : Nat
  stdout : List UInt8 := []
  stderr : String := ""

namespace Report

/-- A fault of the program with the given text, reported under a name. -/
def fault (name text : String) (f : Fault) : Report :=
  { exit := 1, stderr := (Diagnostic.ofFault (some name) text f).render false }

def mistake (m : Mistake) : Report := { exit := 2, stderr := "error: " ++ m.message ++ "\n" }

end Report

/-! ## The code of a command -/

/-- The text of the program a command is about, or why there is none: help comes first, then
    the number of places the code comes from, which must be one, then reading the file. -/
def Command.text (c : Command) (name : String) (w : World) : Except Report String :=
  let usage := Usage.ofSubcommand name c.subcommand
  if c.options.help then .error { exit := 0, stderr := usage }
  else match c.options.file, c.code with
    | none, [] => .error { exit := 2, stderr := usage }
    | none, parts => .ok (String.join parts)
    | some path, [] =>
      match w.readText (Path.ofText path) with
      | .ok text => .ok text
      | .error e =>
        .error {
          exit := 1
          stderr := name ++ ": failed to read code file as UTF-8: " ++ e.message ++ "\n" }
    | some _, _ :: _ =>
      .error {
        exit := 2
        stderr := name ++ ": cannot use positional code together with --file\n" ++ usage }

/-! ## Checking -/

/-- The program without its comments on one line, then a line for every loop. -/
def checked (text : String) (loops : Loops) : String :=
  loops.pairs.foldl
    (fun out (opening, close) => out ++ toString opening ++ " -> " ++ toString close ++ "\n")
    (stripComments text ++ "\n")

def Command.check (c : Command) (name : String) (w : World) : Report :=
  match c.text name w with
  | .error report => report
  | .ok text =>
    let loops := Loops.ofProgram (Program.ofText text)
    match loops.validate with
    | .error u => .fault name (stripComments text) u.toFault
    | .ok () => { exit := 0, stdout := Utf8.encode (checked text loops) }

/-! ## Running -/

/-- A program that is ready to run. -/
structure Launch where
  /-- The name under which faults are reported. -/
  name : String
  code : Code
  debug : Bool := false
  settings : Settings := {}

def Command.flags (c : Command) : Flags where
  timeoutMs := c.options.timeoutMs
  maxSteps := c.options.maxSteps
  lenient := c.options.lenient

/-- Load the program of a command under the settings that apply to it. -/
def Command.launch (c : Command) (name : String) (w : World) : Except Report Launch :=
  match c.text name w with
  | .error report => .error report
  | .ok text =>
    let settings := Settings.resolve c.flags w
    let debug := c.options.debug
    if settings.strictBrackets then
      match Code.load text with
      | .ok code => .ok { name, code, debug, settings }
      | .error f => .error (.fault name (stripComments text) f)
    else .ok { name, code := Code.ofText text, debug, settings }

namespace Launch

def control (l : Launch) : Control Console :=
  Bounds.control { limit := l.settings.maxSteps, cancelable := true }

def engine (l : Launch) : Engine Word Console :=
  if l.debug then Session.printing l.code else Engine.real Console.host l.code

/-- The run before its first instruction. -/
def start (l : Launch) (console : Console) : Run Word Console :=
  Run.start State.initial (if l.debug then console.print Row.header else console)

/-- At most `turns` turns of a run. -/
def run (l : Launch) (turns : Nat) (r : Run Word Console) : Progress Word Console :=
  l.engine.run l.control turns r

/-- The next turn asks for a line, if nobody stops the run before. -/
def asksForLine (l : Launch) (r : Run Word Console) : Bool :=
  !l.debug && !l.settings.maxSteps.any (· ≤ r.steps)
    && l.code.program[r.state.ip]? = some .input

/-- At most `turns` turns of a run whose standard input stays open.  A turn that would wait for
    a line is not taken. -/
def runOpen (l : Launch) : Nat → Run Word Console → Progress Word Console
  | 0, r => .running r
  | turns + 1, r =>
    if l.asksForLine r && !Line.isThere r.world.stdin then .running r
    else match l.run 1 r with
      | .ended result r => .ended result r
      | .running r => runOpen l turns r

end Launch

/-! ## Verdicts -/

/-- What became of a run. -/
inductive Verdict
  | finished (result : Except Fault Unit)
  | timedOut
  | interrupted

/-- What is said when a run was interrupted, by whatever way this was noticed. -/
def interruption : Report := { exit := 130, stderr := "Execution aborted: interrupted\n" }

/-- The report of a verdict, without what the run has printed. -/
def Launch.judge (l : Launch) : Verdict → Report
  | .finished (.ok ()) => { exit := 0 }
  | .finished (.error .canceled) => interruption
  | .finished (.error f) => .fault l.name l.code.source f
  | .timedOut =>
    { exit := 1
      stderr := "Execution aborted: wall-clock timeout exceeded ("
        ++ toString (l.settings.timeoutMs.getD 0) ++ " ms)\n" }
  | .interrupted => interruption

/-- The whole report of a run that printed `printed`: its output always ends with a line feed
    of its own. -/
def Launch.report (l : Launch) (verdict : Verdict) (printed : List UInt8) : Report :=
  { l.judge verdict with stdout := printed ++ [10] }

/-- Run a program for at most `turns` turns.  Time is measured in turns here: a run that is
    still going after the last one has run out of time. -/
def Launch.conclude (l : Launch) (turns : Nat) (console : Console) : Report :=
  match l.run turns (l.start console) with
  | .ended result run => l.report (.finished result) run.world.stdout.bytes.toList
  | .running run => l.report .timedOut run.world.stdout.bytes.toList

/-- Run a program on an input that stays open, and interrupt it once some of its output has
    arrived.  An interrupt takes its time, so a run has its `turns` turns before it is hit; one
    that has nothing to show by then is left to run out of time. -/
def Launch.concludeInterrupted (l : Launch) (turns : Nat) (console : Console) : Report :=
  match l.runOpen turns (l.start console) with
  | .ended result run => l.report (.finished result) run.world.stdout.bytes.toList
  | .running run =>
    l.report (if run.world.stdout.delivered.isEmpty then .timedOut else .interrupted)
      run.world.stdout.bytes.toList

/-! ## Everything -/

/-- What a command line leads to: a report at once, or a launch. -/
def dispatch (name : String) (args : List Argument) (w : World) : Except Report Launch :=
  match Invocation.parse args with
  | .error m => .error (.mistake m)
  | .ok invocation =>
    if invocation.help then .error { exit := 0, stderr := Usage.program name }
    else match invocation.command with
      | none => .error { exit := 2, stderr := Usage.program name }
      | some command =>
        match command.subcommand with
        | .check => .error (command.check name w)
        | .run => command.launch name w

end Brainfuck.Cli
