/-
  Diagnostics: what is shown for a fault.

  A fault with a position gets three lines: the message, a window of the program around the
  position, and a caret under the character at the position.  A fault without one gets its
  message alone.

      bf: Runtime error: tape underflow (cannot move left of cell 0) at instruction 1
        +<
         ^

  A diagnostic is a list of SPANS, each painted in one style or in none, and is rendered with
  or without colour.  Colour only ever wraps a span, so it never changes what is said: without
  colour a diagnostic is the concatenation of its spans.
-/
import Brainfuck.Fault
import Brainfuck.Text.Slice

namespace Brainfuck

/-! ## Styles and spans -/

/-- A foreground colour, bold or not. -/
structure Style where
  bold : Bool := false
  red : Nat
  green : Nat
  blue : Nat

namespace Style

/-- Messages about an instruction. -/
def failure : Style := { bold := true, red := 243, green := 139, blue := 168 }

/-- Messages about a run that was stopped. -/
def stopped : Style := { bold := true, red := 250, green := 179, blue := 135 }

/-- The window of the program. -/
def dim : Style := { red := 108, green := 112, blue := 134 }

/-- The caret and what is before it. -/
def caret : Style := { red := 249, green := 226, blue := 175 }

/-- The parameters of the terminal sequence that turns the style on. -/
def parameters (s : Style) : String :=
  (if s.bold then "1;" else "")
    ++ "38;2;" ++ toString s.red ++ ";" ++ toString s.green ++ ";" ++ toString s.blue

/-- A text between the sequence that turns the style on and the one that turns it off. -/
def paint (s : Style) (text : String) : String :=
  "\x1b[" ++ s.parameters ++ "m" ++ text ++ "\x1b[0m"

end Style

structure Span where
  style : Option Style := none
  text : String

def Span.render (colored : Bool) (span : Span) : String :=
  match colored, span.style with
  | true, some style => style.paint span.text
  | _, _ => span.text

/-! ## Diagnostics -/

abbrev Diagnostic := List Span

namespace Diagnostic

def render (colored : Bool) (d : Diagnostic) : String :=
  d.foldl (fun text span => text ++ span.render colored) ""

/-- How many characters are shown before the position, and as many after it. -/
def reach : Nat := 32

/-- Where the window around a position begins. -/
def windowStart (position : Nat) : Nat := position - reach

/-- Where it ends: behind as many characters after the position, or with the text. -/
def windowStop (text : String) (position : Nat) : Nat := min (position + reach + 1) text.length

/-- A window that does not begin before its end begins behind the text. -/
theorem windowStart_le_windowStop (text : String) (position : Nat) :
    windowStart position ≤ windowStop text position
      ∨ text.length ≤ windowStop text position := by
  unfold windowStart windowStop reach
  omega

/-- The characters of a text around a position, as far as the text has them.  They are counted, and
    then cut out by their bytes. -/
def window (text : String) (position : Nat) : String :=
  let start := Text.byteIndex text (windowStart position)
  let stop := Text.byteIndex text (windowStop text position)
  (Text.slice? text start stop).get <| by
    rw [Text.slice?_byteIndex text (windowStart_le_windowStop text position)]
    rfl

/-- The caret, under the position if the window is above it. -/
def marker (position : Nat) : String :=
  String.ofList (List.replicate (position - windowStart position) ' ') ++ "^"

/-- A message about the instruction at a position of a program text. -/
def located (message text : String) (position : Nat) : Diagnostic :=
  [ { style := some .failure, text := message },
    { text := " at instruction " ++ toString position ++ "\n  " },
    { style := some .dim, text := window text position },
    { text := "\n  " },
    { style := some .caret, text := marker position },
    { text := "\n" } ]

/-- What is said about a fault, its position apart. -/
def summary : Fault → String
  | .underflow _ => "Runtime error: tape underflow (cannot move left of cell 0)"
  | .unmatched _ side => "Bracket error: unmatched bracket " ++ side.quoted
  | .io _ reason => "I/O error: " ++ reason
  | .stepLimit limit => Fault.message (.stepLimit limit)
  | .canceled => Fault.message .canceled

/-- The diagnostic of a fault in a program text, headed by the name of the program that
    reports it, if there is one. -/
def ofFault (reporter : Option String) (text : String) (fault : Fault) : Diagnostic :=
  let message := match reporter with
    | some name => name ++ ": " ++ summary fault
    | none => summary fault
  match fault.position? with
  | some position => located message text position
  | none => [ { style := some .stopped, text := message }, { text := "\n" } ]

end Diagnostic

end Brainfuck
