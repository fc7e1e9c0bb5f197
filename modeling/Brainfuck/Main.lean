/-
  The command line program.

  All decisions are made elsewhere; here bytes are moved.  The files that a command may look at
  are read beforehand, standard input is read a line at a time when the run is about to ask for
  one, and what has reached the device is written out between two turns.
-/
import Brainfuck.Cli.Waiting

namespace Brainfuck.Main

open Brainfuck.Cli

/-- The name under which usage and faults are reported. -/
def name : String := "bf"

def envNames : List String :=
  ["BF_CONFIG", "BF_TIMEOUT_MS", "BF_MAX_STEPS", "XDG_CONFIG_HOME", "HOME"]

def fileFailure (isDirectory : Bool) : IO.Error → ReadFailure
  | .inappropriateType .. => if isDirectory then .isDirectory else .notDirectory
  | .invalidArgument .. => .nameTooLong
  | _ => if isDirectory then .isDirectory else .notFound

def fetch (path : Path) : IO (Except ReadFailure (List UInt8)) := do
  match Utf8.decode? path with
  | none => return .error .notFound
  | some path =>
    if path.isEmpty then return .error .notFound
    let place := (← IO.currentDir) / path
    try
      return .ok (← IO.FS.readBinFile place).toList
    catch e =>
      return .error (fileFailure (← place.isDir) e)

/-- The world as far as a command line can ask for it. -/
def world (args : List Argument) : IO World := do
  let values ← envNames.filterMapM fun key => do
    return (← IO.getEnv key).map fun value => (key, Utf8.encode value)
  let blank : World := { env := fun key => values.lookup key, file := fun _ => .error .notFound }
  let code? := match Invocation.parse args with
    | .ok { command := some command, .. } => command.options.file.map Path.ofText
    | _ => none
  let files ← (blank.settingsPath?.toList ++ code?.toList).mapM fun path => do
    return (path, ← fetch path)
  return { blank with file := fun path => (files.lookup path).getD (.error .notFound) }

/-! ## Running -/

/-- A line from standard input, as far as there is one. -/
partial def readLine (stdin : IO.FS.Stream) (line : ByteArray) : IO ByteArray := do
  let byte ← stdin.read 1
  if byte.isEmpty then return line
  if byte = ⟨#[10]⟩ then return line ++ byte
  readLine stdin (line ++ byte)

/-- Have a line at hand for a run that is about to ask for one. -/
def feed (l : Launch) (run : Run Word Console) : IO (Run Word Console) := do
  if !l.asksForLine run then return run
  let line ← readLine (← IO.getStdin) .empty
  return { run with world := { run.world with stdin := line.toList } }

/-- Write out what has reached the device. -/
def drain (run : Run Word Console) : IO (Run Word Console) := do
  if run.world.stdout.delivered.isEmpty then return run
  let stdout ← IO.getStdout
  stdout.write ⟨run.world.stdout.delivered⟩
  stdout.flush
  let console := run.world
  return { run with world := { console with stdout := { console.stdout with delivered := #[] } } }

/-- Take turns until there is a verdict. -/
partial def wait (l : Launch) (deadline : Option Nat) (run : Run Word Console) :
    IO (Verdict × Run Word Console) := do
  match l.run 1 (← feed l run) with
  | .ended result run => return (.finished result, run)
  | .running run =>
    let run ← drain run
    let now ← IO.monoMsNow
    match poll false (deadline.any (· ≤ now)) with
    | some verdict => return (verdict, run)
    | none => wait l deadline run

def deliver (report : Report) : IO UInt32 := do
  (← IO.getStderr).putStr report.stderr
  let stdout ← IO.getStdout
  stdout.write ⟨report.stdout.toArray⟩
  stdout.flush
  return report.exit.toUInt32

def respond (args : List Argument) : IO UInt32 := do
  match dispatch name args (← world args) with
  | .error report => deliver report
  | .ok launch =>
    let started ← IO.monoMsNow
    let deadline := launch.settings.timeoutMs.map (started + ·)
    let (verdict, run) ← wait launch deadline (launch.start {})
    deliver (launch.report verdict run.world.stdout.bytes.toList)

end Brainfuck.Main

def main (args : List String) : IO UInt32 :=
  Brainfuck.Main.respond (args.map Brainfuck.Cli.Argument.ofText)
