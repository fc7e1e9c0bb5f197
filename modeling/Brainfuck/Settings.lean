/-
  Settings: the limits of a run, and whether brackets are checked before it.

  A settings DOCUMENT is a text of lines.  Only the sections headed `[run]` matter, and in them
  only lines `key = value`:

      # defaults
      [run]
      timeout_ms = 5000
      max_steps = "1000000"
      strict_brackets = true

  Of several assignments of one key the LAST one counts, in whichever `[run]` section it is,
  and it counts even when its value says nothing: then the setting has its default.  Lines that
  are none of these are passed over, so every text is a settings document.
-/
import Brainfuck.Text.Blank
import Brainfuck.Text.Lines
import Brainfuck.Text.Numeral

namespace Brainfuck

structure Settings where
  /-- Wall-clock limit in milliseconds. -/
  timeoutMs : Option Nat := none
  /-- How many instructions may be executed. -/
  maxSteps : Option Nat := none
  /-- Refuse unmatched brackets before running. -/
  strictBrackets : Bool := true
  deriving DecidableEq

namespace Settings

/-! ## Lines -/

/-- What a line of a document says. -/
inductive Entry
  | header (name : List Char)
  | assignment (key value : List Char)
  | nothing
  deriving DecidableEq

/-- A value without the one pair of quotes around it, if there is one. -/
def unquote (value : List Char) : List Char :=
  match value with
  | '"' :: rest => if rest.getLast? = some '"' then rest.dropLast else value
  | _ => value

/-- Cut at the first `=`. -/
def Entry.ofAssignment (line : List Char) : Entry :=
  match line.dropWhile (· ≠ '=') with
  | _ :: value =>
    .assignment (Text.trim (line.takeWhile (· ≠ '='))) (unquote (Text.trim value))
  | [] => .nothing

def Entry.ofLine (line : List Char) : Entry :=
  match Text.trim line with
  | [] => .nothing
  | '#' :: _ => .nothing
  | '[' :: rest =>
    if rest.getLast? = some ']' then .header (Text.trim rest.dropLast)
    else .ofAssignment ('[' :: rest)
  | line => .ofAssignment line

/-! ## Documents -/

/-- The state of reading a document: whether the line is in a `[run]` section, and the value
    last assigned to each key. -/
structure Reading where
  inRun : Bool := false
  timeoutMs : Option (List Char) := none
  maxSteps : Option (List Char) := none
  strictBrackets : Option (List Char) := none

namespace Reading

def assign (r : Reading) (key value : List Char) : Reading :=
  if key = "timeout_ms".toList then { r with timeoutMs := some value }
  else if key = "max_steps".toList then { r with maxSteps := some value }
  else if key = "strict_brackets".toList then { r with strictBrackets := some value }
  else r

def take (r : Reading) : Entry → Reading
  | .header name => { r with inRun := name = "run".toList }
  | .assignment key value => if r.inRun then r.assign key value else r
  | .nothing => r

end Reading

def parseBool? (value : List Char) : Option Bool :=
  if value = "true".toList then some true
  else if value = "false".toList then some false
  else none

/-- The settings the last assignments make; a value that cannot be read makes the default. -/
def ofReading (r : Reading) : Settings where
  timeoutMs := r.timeoutMs.bind Numeral.parse?
  maxSteps := r.maxSteps.bind Numeral.parse?
  strictBrackets := (r.strictBrackets.bind parseBool?).getD true

/-- Read a settings document. -/
def ofDocument (text : String) : Settings :=
  ofReading <| ((Text.lines text.toList).map Entry.ofLine).foldl Reading.take {}

end Settings

end Brainfuck
