/-
  The console: the outside of a run, as a value.

  Lines come from one of two places: a SCRIPT that holds the answer to every request for a
  line, or the bytes of standard input.  Bytes go to one of two places: a COLLECTOR that takes
  every byte at once, or standard output.  Script and collector can be installed at any time
  between two calls; without them the standard streams are used.

  **Standard output is line buffered.**  A byte is HELD until a line feed has been written or
  the output is flushed; then everything held is transferred to the device.  There may be a
  limit to what can be held: a byte that finds no room has everything before it transferred
  first, and is not written if that fails.

  The device may be full, and then every transfer that carries something fails.  So on a full
  device the byte that fails is a line feed or one that finds no room, or the failure waits for
  the flush at the end of the run, or it never comes because nothing was written.

  **Cancellation.**  A call may be asked to stop beforehand, or by a tripwire: after some number
  of bytes collected or of lines asked of the script, counted from the beginning of the call.
-/
import Brainfuck.Run

namespace Brainfuck

/-! ## Standard output -/

structure Stdout where
  /-- The device takes nothing more. -/
  full : Bool := false
  /-- How many bytes can be held, if there is a limit. -/
  capacity : Option Nat := some 1024
  /-- Bytes written since the last transfer. -/
  held : Array UInt8 := #[]
  /-- Bytes that have reached the device. -/
  delivered : Array UInt8 := #[]

namespace Stdout

/-- What is said when a full device is written to. -/
def noSpace : String := "No space left on device (os error 28)"

/-- Transfer what is held.  Transferring nothing always succeeds. -/
def flush (o : Stdout) : Except String Unit × Stdout :=
  if o.held.isEmpty then (.ok (), o)
  else if o.full then (.error noSpace, o)
  else (.ok (), { o with delivered := o.delivered ++ o.held, held := #[] })

/-- Nothing more can be held. -/
def isCrowded (o : Stdout) : Bool := o.capacity.any (· ≤ o.held.size)

/-- Hold one more byte, and transfer if it ends a line. -/
def hold (byte : UInt8) (o : Stdout) : Except String Unit × Stdout :=
  let o := { o with held := o.held.push byte }
  if byte = 10 then o.flush else (.ok (), o)

/-- Write a byte, for which room is made if there is none. -/
def write (byte : UInt8) (o : Stdout) : Except String Unit × Stdout :=
  if o.isCrowded then
    match o.flush with
    | (.ok (), o) => o.hold byte
    | (.error reason, o) => (.error reason, o)
  else o.hold byte

/-- Write a text; it is not told whether that worked. -/
def print (text : String) (o : Stdout) : Stdout :=
  text.toUTF8.toList.foldl (fun o byte => (o.write byte).2) o

/-- All bytes written to a device that is not full, held or delivered. -/
def bytes (o : Stdout) : Array UInt8 :=
  if o.full then o.delivered else o.delivered ++ o.held

/-- As it is when nothing has been written yet. -/
def clear (o : Stdout) : Stdout := { full := o.full, capacity := o.capacity }

end Stdout

/-! ## The console -/

/-- A script's answer to one request for a line. -/
inductive Answer
  | line (text : String)
  | endOfInput
  | failure (reason : String)

def Answer.toExcept : Answer → Except String (Option String)
  | line text => .ok (some text)
  | endOfInput => .ok none
  | failure reason => .error reason

/-- Counts at which a call is asked to stop. -/
structure Tripwire where
  /-- Bytes collected in the call. -/
  collected : Option Nat := none
  /-- Lines asked of the script in the call. -/
  asked : Option Nat := none

structure Console where
  /-- The answers a script still has, if one is installed; it ends with the input at its end. -/
  script : Option (List Answer) := none
  /-- What is left of standard input. -/
  stdin : List UInt8 := []
  /-- Whether a collector is installed. -/
  collecting : Bool := false
  /-- Bytes collected in this call. -/
  collected : Array UInt8 := #[]
  /-- Requests for a line that the script has answered in this call. -/
  asked : Nat := 0
  stdout : Stdout := {}
  tripwire : Tripwire := {}
  canceled : Bool := false

namespace Console

/-- Look at the counts of bytes collected and lines asked for, both at either event. -/
def notice (c : Console) : Console :=
  { c with
    canceled := c.canceled || c.tripwire.collected.any (· ≤ c.collected.size)
      || c.tripwire.asked.any (· ≤ c.asked) }

def onStdout {β : Type} (use : Stdout → β × Stdout) (c : Console) : β × Console :=
  let stdout := c.stdout
  -- `c` lets go of its output first, so that the bytes are extended in place.
  let c := { c with stdout := {} }
  let (answer, stdout) := use stdout
  (answer, { c with stdout })

def write (byte : UInt8) (c : Console) : Except String Unit × Console :=
  if c.collecting then
    (.ok (), notice { c with collected := c.collected.push byte })
  else c.onStdout (Stdout.write byte)

def readLine (c : Console) : Except String (Option String) × Console :=
  match c.script with
  | some answers =>
    let c := notice { c with script := some answers.tail, asked := c.asked + 1 }
    ((answers.headD .endOfInput).toExcept, c)
  | none =>
    let (result, stdin) := Line.read c.stdin
    (result, { c with stdin })

/-- A collector keeps nothing back, so only standard output is flushed. -/
def flush (c : Console) : Except String Unit × Console :=
  if c.collecting then (.ok (), c) else c.onStdout Stdout.flush

def host : Host Console where
  write := write
  readLine := readLine
  flush := flush

/-- Print a text to standard output. -/
def print (text : String) (c : Console) : Console :=
  (c.onStdout fun stdout => ((), stdout.print text)).2

/-- Ready for the next call: all counts start again, and what the last call left in the output
    is gone. -/
def begin (canceled : Bool) (tripwire : Tripwire) (c : Console) : Console :=
  { c with
    collected := #[]
    asked := 0
    stdout := c.stdout.clear
    tripwire
    canceled }

end Console

end Brainfuck
