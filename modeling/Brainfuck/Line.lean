/-
  Lines: how input is cut into them, and the number that `,` takes from one.

  The code of a line is the code of its FIRST character once the line separator is gone, and 0
  when nothing is left.  The separator is at most one final line feed and, before it, at most
  one final carriage return; what follows the first character never matters.
-/
import Brainfuck.Text.Lines
import Brainfuck.Text.Utf8

namespace Brainfuck.Line

/-- The number read from a line; 0 from an empty one. -/
def code (line : String) : Nat :=
  match Text.dropFinal '\r' (Text.dropFinal '\n' line.toList) with
  | [] => 0
  | c :: _ => c.toNat

/-- The number read when a line is asked for, 0 at the end of the input. -/
def answerCode : Option String → Nat
  | none => 0
  | some line => code line

/-- The first line of some bytes, up to and including its line feed, and the bytes after it. -/
def take (bytes : List UInt8) : List UInt8 × List UInt8 :=
  let line := bytes.takeWhile (· ≠ 10)
  match bytes.dropWhile (· ≠ 10) with
  | [] => (line, [])
  | feed :: rest => (line ++ [feed], rest)

/-- The bytes hold a line to its end. -/
def isThere (bytes : List UInt8) : Bool := bytes.contains 10

/-- Ask some bytes for a line: no line at their end, and a line that is not text is an error
    but is used up all the same. -/
def read (bytes : List UInt8) : Except String (Option String) × List UInt8 :=
  match take bytes with
  | ([], rest) => (.ok none, rest)
  | (line, rest) =>
    match Utf8.decode? line with
    | some text => (.ok (some text), rest)
    | none => (.error Utf8.illFormed, rest)

end Brainfuck.Line
