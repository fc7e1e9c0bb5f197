/-
  Unsigned decimal numerals of at most 64 bits.

  A numeral is an optional single `+` followed by one or more ASCII digits; leading zeros mean
  nothing.  It is read from the left, and the first thing that goes wrong is what is reported:
  a character that is no digit, or the digit with which the number exceeds `2^64 - 1`.
-/

namespace Brainfuck.Numeral

/-- Why a text is not a numeral. -/
inductive Flaw
  | empty
  | invalidDigit
  | tooLarge
  deriving DecidableEq

def Flaw.message : Flaw → String
  | .empty => "cannot parse integer from empty string"
  | .invalidDigit => "invalid digit found in string"
  | .tooLarge => "number too large to fit in target type"

/-- The largest number that has a numeral. -/
def largest : Nat := UInt64.size - 1

def digit? (c : Char) : Option Nat :=
  if c.isDigit then some (c.toNat - '0'.toNat) else none

/-- Read on, with `n` already read. -/
def digits (n : Nat) : List Char → Except Flaw Nat
  | [] => .ok n
  | c :: rest =>
    match digit? c with
    | none => .error .invalidDigit
    | some d => if largest < n * 10 + d then .error .tooLarge else digits (n * 10 + d) rest

def parse : List Char → Except Flaw Nat
  | [] => .error .empty
  | ['+'] => .error .invalidDigit
  | '+' :: rest => digits 0 rest
  | cs => digits 0 cs

def parse? (cs : List Char) : Option Nat := (parse cs).toOption

end Brainfuck.Numeral
