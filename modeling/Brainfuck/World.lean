/-
  What a command sees of the world it is started in: environment variables and files.

  Values of variables, paths and the contents of files are BYTES; each user says where it needs
  text, and what counts if the bytes are none.
-/
import Brainfuck.Text.Utf8

namespace Brainfuck

abbrev Path := List UInt8

namespace Path

def ofText (text : String) : Path := Utf8.encode text

/-- The path of something in a directory.  A name in the empty path is the name itself. -/
def join (directory : Path) (name : String) : Path :=
  if directory.isEmpty || directory.getLast? = some 0x2F then directory ++ ofText name
  else directory ++ 0x2F :: ofText name

end Path

/-- Why a file has no text to offer. -/
inductive ReadFailure
  | notFound
  | isDirectory
  | notDirectory
  | nameTooLong
  | illFormed
  deriving DecidableEq

def ReadFailure.message : ReadFailure → String
  | notFound => "No such file or directory (os error 2)"
  | isDirectory => "Is a directory (os error 21)"
  | notDirectory => "Not a directory (os error 20)"
  | nameTooLong => "File name too long (os error 36)"
  | illFormed => Utf8.illFormed

structure World where
  env : String → Option (List UInt8)
  file : Path → Except ReadFailure (List UInt8)

namespace World

/-- The value of a variable, if it is set to text. -/
def envText? (w : World) (name : String) : Option String := (w.env name).bind Utf8.decode?

/-- The contents of a file of text. -/
def readText (w : World) (path : Path) : Except ReadFailure String :=
  match w.file path with
  | .error e => .error e
  | .ok bytes =>
    match Utf8.decode? bytes with
    | some text => .ok text
    | none => .error .illFormed

end World

end Brainfuck
