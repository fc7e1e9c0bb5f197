/-
  Command lines.

  `bf [switches] <subcommand> [switches] [--] [code ...]`

  Arguments are read from left to right.  Before the code starts, an argument is a switch if it
  is EXACTLY one: a known long name, possibly with `=value`, or a cluster of known short names.
  Everything else starts the code, from which on every argument is code, whatever it looks
  like; that is what lets a program such as `-[+]` be given without ceremony.  `--` is dropped
  and starts the code behind itself.

  **Values.**  A switch that takes a value takes what is attached to it, or else the next
  argument, unless that is a switch or `--` itself.  A value that was not attached is looked at
  only when the next switch, the code or the end is reached, so what is wrong with that switch's
  SPELLING is reported first.

  **Which mistake is reported.**  Switches are judged from left to right, and of one switch a
  missing value comes before a repetition and a repetition before a bad value.  Code that is
  not text comes last.  All of the line is read before anything is done, help included.

  **Arguments need not be text.**  A long name that is none can be no switch and cannot be code
  either, so it is a mistake wherever a switch may stand.  Messages quote arguments as they can
  be shown, without what would steer a terminal.
-/
import Brainfuck.Text.ControlSequence
import Brainfuck.Text.Numeral
import Brainfuck.Text.Utf8

namespace Brainfuck.Cli

/-- An argument, whether it is text or not. -/
structure Argument where
  pieces : List Utf8.Piece
  deriving DecidableEq

namespace Argument

def ofBytes (bytes : List UInt8) : Argument := ⟨Utf8.pieces bytes⟩

def ofText (text : String) : Argument := ⟨text.toList.map .scalar⟩

/-- The text that was given, if it is one. -/
def text? (a : Argument) : Option String :=
  (a.pieces.mapM Utf8.Piece.scalar?).map String.ofList

/-- The argument as it can be shown. -/
def shown (a : Argument) : String := String.ofList (a.pieces.map Utf8.Piece.shown)

/-- The part before the first equals sign, and the part behind it if there is one. -/
def splitAtEquals (a : Argument) : Argument × Option Argument :=
  (⟨a.pieces.takeWhile (· ≠ .scalar '=')⟩,
    match a.pieces.dropWhile (· ≠ .scalar '=') with
    | [] => none
    | _ :: value => some ⟨value⟩)

end Argument

/-! ## Switches and subcommands -/

inductive Switch
  | help
  | debug
  | lenient
  | file
  | timeout
  | maxSteps
  deriving DecidableEq

namespace Switch

def long : Switch → String
  | help => "help"
  | debug => "debug"
  | lenient => "lenient"
  | file => "file"
  | timeout => "timeout"
  | maxSteps => "max-steps"

def short? : Switch → Option Char
  | help => some 'h'
  | debug => some 'd'
  | file => some 'f'
  | lenient | timeout | maxSteps => none

/-- What the value of a switch is called, if the switch takes one. -/
def valueName? : Switch → Option String
  | file => some "FILE"
  | timeout => some "MS"
  | maxSteps => some "N"
  | help | debug | lenient => none

def takesValue (s : Switch) : Bool := s.valueName?.isSome

/-- How messages name a switch. -/
def display (s : Switch) : String :=
  match s.valueName? with
  | some name => "--" ++ s.long ++ " <" ++ name ++ ">"
  | none => "--" ++ s.long

end Switch

inductive Subcommand
  | run
  | check
  deriving DecidableEq

namespace Subcommand

def switches : Subcommand → List Switch
  | run => [.debug, .lenient, .file, .timeout, .maxSteps, .help]
  | check => [.file, .help]

def ofArgument? (a : Argument) : Option Subcommand :=
  if a.text? = some "run" then some run
  else if a.text? = some "check" then some check
  else none

end Subcommand

/-! ## Mistakes -/

inductive Mistake
  | repeated (s : Switch)
  | missingValue (s : Switch)
  | unexpectedValue (s : Switch) (value : String)
  | badNumber (s : Switch) (value : String) (flaw : Numeral.Flaw)
  | illFormed
  | unexpectedArgument (text : String)
  | unknownSubcommand (text : String)

/-- How messages quote what was given. -/
def quote (text : String) : String := "'" ++ ControlSequence.strip text ++ "'"

def Mistake.message : Mistake → String
  | repeated s => "the argument '" ++ s.display ++ "' cannot be used multiple times"
  | missingValue s => "a value is required for '" ++ s.display ++ "' but none was supplied"
  | unexpectedValue s value =>
    "unexpected value " ++ quote value ++ " for '" ++ s.display
      ++ "' found; no more were expected"
  | badNumber s value flaw =>
    "invalid value " ++ quote value ++ " for '" ++ s.display ++ "': " ++ flaw.message
  | illFormed => "invalid UTF-8 was detected in one or more arguments"
  | unexpectedArgument text => "unexpected argument " ++ quote text ++ " found"
  | unknownSubcommand text => "unrecognized subcommand " ++ quote text

/-! ## Options -/

/-- The switches that were given. -/
structure Options where
  help : Bool := false
  debug : Bool := false
  lenient : Bool := false
  file : Option String := none
  timeoutMs : Option Nat := none
  maxSteps : Option Nat := none
  deriving DecidableEq

namespace Options

def has (o : Options) : Switch → Bool
  | .help => o.help
  | .debug => o.debug
  | .lenient => o.lenient
  | .file => o.file.isSome
  | .timeout => o.timeoutMs.isSome
  | .maxSteps => o.maxSteps.isSome

/-- A switch without a value. -/
def raise (o : Options) (s : Switch) : Except Mistake Options :=
  if o.has s then .error (.repeated s)
  else match s with
    | .help => .ok { o with help := true }
    | .debug => .ok { o with debug := true }
    | .lenient => .ok { o with lenient := true }
    | .file | .timeout | .maxSteps => .error (.missingValue s)

def number (s : Switch) (value : Argument) : Except Mistake Nat :=
  match value.text? with
  | none => .error .illFormed
  | some text =>
    match Numeral.parse text.toList with
    | .ok n => .ok n
    | .error flaw => .error (.badNumber s text flaw)

/-- A switch with a value. -/
def assign (o : Options) (s : Switch) (value : Argument) : Except Mistake Options :=
  if o.has s then .error (.repeated s)
  else match s with
    | .file =>
      match value.text? with
      | none => .error .illFormed
      | some path => .ok { o with file := some path }
    | .timeout => do return { o with timeoutMs := some (← number s value) }
    | .maxSteps => do return { o with maxSteps := some (← number s value) }
    | .help | .debug | .lenient => .error (.unexpectedValue s value.shown)

end Options

/-! ## How an argument reads before the code -/

inductive Reading
  | escape
  | long (s : Switch) (attached : Option Argument)
  /-- A long name that is not text. -/
  | unreadable (name : Argument)
  /-- Switches without a value, and possibly one that takes a value at the end, with what is
      attached to it. -/
  | cluster (raised : List Switch) (valued : Option (Switch × Option Argument))
  | plain

/-- A cluster of short names, if all of them are known.  The first that takes a value takes the
    rest of the cluster. -/
def cluster? (known : List Switch) :
    List Utf8.Piece → Option (List Switch × Option (Switch × Option Argument))
  | [] => some ([], none)
  | piece :: rest => do
    let c ← piece.scalar?
    let s ← known.find? (·.short? = some c)
    let (raised, valued) ← cluster? known rest
    if s.takesValue then return ([], some (s, if rest.isEmpty then none else some ⟨rest⟩))
    else return (s :: raised, valued)

def Argument.read (known : List Switch) (a : Argument) : Reading :=
  match a.pieces with
  | [.scalar '-', .scalar '-'] => .escape
  | .scalar '-' :: .scalar '-' :: rest =>
    let (name, attached) := Argument.splitAtEquals ⟨rest⟩
    match name.text? with
    | none => .unreadable name
    | some text =>
      match known.find? (·.long = text) with
      | none => .plain
      | some s => .long s attached
  | .scalar '-' :: piece :: rest =>
    match cluster? known (piece :: rest) with
    | some (raised, valued) => .cluster raised valued
    | none => .plain
  | _ => .plain

/-! ## Reading the arguments of a subcommand -/

/-- The options so far, and a switch that waits for its value or for its value to be looked
    at. -/
structure Parse where
  options : Options := {}
  pending : Option (Switch × Option Argument) := none

namespace Parse

/-- Be done with the pending switch. -/
def settle (p : Parse) : Except Mistake Options :=
  match p.pending with
  | none => .ok p.options
  | some (s, none) => .error (.missingValue s)
  | some (s, some value) => p.options.assign s value

/-- A switch that takes a value, with or without one attached. -/
def expect (o : Options) (s : Switch) : Option Argument → Except Mistake Parse
  | some value => do return { options := ← o.assign s value }
  | none => .ok { options := o, pending := some (s, none) }

/-- Read arguments up to the code: the options and the code. -/
def go (known : List Switch) : List Argument → Parse → Except Mistake (Options × List Argument)
  | [], p => do return (← p.settle, [])
  | a :: rest, p =>
    match a.read known with
    | .escape => do return (← p.settle, rest)
    | .long s attached =>
      if s.takesValue then do
        go known rest (← expect (← p.settle) s attached)
      else
        match attached with
        -- A wrong spelling, whatever is still pending.
        | some value => .error (.unexpectedValue s value.shown)
        | none => do go known rest { options := ← (← p.settle).raise s }
    -- So is this.
    | .unreadable name => .error (.unexpectedArgument ("--" ++ name.shown))
    | .cluster raised valued => do
      let options ← raised.foldlM Options.raise (← p.settle)
      match valued with
      | none => go known rest { options }
      | some (s, attached) => go known rest (← expect options s attached)
    | .plain =>
      match p.pending with
      | some (s, none) => go known rest { p with pending := some (s, some a) }
      | _ => do return (← p.settle, a :: rest)

end Parse

/-- A subcommand with everything that was given to it. -/
structure Command where
  subcommand : Subcommand
  options : Options := {}
  code : List String := []
  deriving DecidableEq

def Command.parse (subcommand : Subcommand) (args : List Argument) : Except Mistake Command := do
  let (options, code) ← Parse.go subcommand.switches args {}
  match code.mapM Argument.text? with
  | some code => return { subcommand, options, code }
  | none => throw .illFormed

/-! ## Reading the whole line -/

/-- What a command line asks for. -/
structure Invocation where
  help : Bool := false
  command : Option Command := none

namespace Invocation

/-- Short switches before the subcommand; only help is one.  A character that is none is shown
    alone, and what is not text is shown to the end. -/
def shorts (help : Bool) : List Utf8.Piece → Except Mistake Bool
  | [] => .ok help
  | .broken :: rest =>
    .error (.unexpectedArgument ("-" ++ Argument.shown ⟨.broken :: rest⟩))
  | .scalar c :: rest =>
    if c ≠ 'h' then .error (.unexpectedArgument ("-" ++ c.toString))
    else if help then .error (.repeated .help)
    else shorts true rest

/-- What is wrong with an argument behind `--`: nothing is expected there, not even a
    subcommand. -/
def misplaced (a : Argument) : Mistake :=
  match Subcommand.ofArgument? a with
  | some _ => .unexpectedArgument a.shown
  | none => .unknownSubcommand a.shown

def go (help : Bool) : List Argument → Except Mistake Invocation
  | [] => .ok { help }
  | a :: rest =>
    match a.pieces with
    | [.scalar '-', .scalar '-'] =>
      match rest with
      | [] => .ok { help }
      | x :: _ => .error (misplaced x)
    | .scalar '-' :: .scalar '-' :: long =>
      let (name, attached) := Argument.splitAtEquals ⟨long⟩
      if name.text? ≠ some Switch.help.long then
        .error (.unexpectedArgument ("--" ++ name.shown))
      else match attached with
        | some value => .error (.unexpectedValue .help value.shown)
        | none => if help then .error (.repeated .help) else go true rest
    | .scalar '-' :: piece :: more => do go (← shorts help (piece :: more)) rest
    | _ =>
      match Subcommand.ofArgument? a with
      | none => .error (.unknownSubcommand a.shown)
      | some subcommand => do
        return { help, command := some (← Command.parse subcommand rest) }

/-- Read a command line, the name of the program apart. -/
def parse (args : List Argument) : Except Mistake Invocation := go false args

end Invocation

end Brainfuck.Cli
