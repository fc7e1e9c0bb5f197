/-
  Cutting a text into lines.

  A line ends in a line feed, or in a carriage return and a line feed, or with the text.  The
  ending does not belong to the line; a carriage return anywhere else is a character like any
  other.
-/

namespace Brainfuck.Text

/-- Without one `c` at the very end, if there is one. -/
def dropFinal (c : Char) (cs : List Char) : List Char :=
  if cs.getLast? = some c then cs.dropLast else cs

/-- The lines of a text.  A final line feed begins no further line. -/
def lines (cs : List Char) : List (List Char) := go [] cs
where
  /-- `line` holds the characters of the current line, last one first. -/
  go (line : List Char) : List Char → List (List Char)
    | [] => if line.isEmpty then [] else [line.reverse]
    | c :: rest =>
      if c = '\n' then dropFinal '\r' line.reverse :: go [] rest else go (c :: line) rest

end Brainfuck.Text
