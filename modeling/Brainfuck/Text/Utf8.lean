/-
  Bytes as text.

  `decode?` accepts exactly well-formed UTF-8.  `pieces` reads any bytes at all, as a list of
  scalar values and BROKEN pieces: each maximal stretch that begins a scalar value but does not
  finish it is one, and so is each byte that begins none.  Where such bytes have to be shown, a
  broken piece becomes one replacement character U+FFFD.

  Reading pieces is a small automaton.  `lead` says of a first byte how many more bytes its
  scalar needs and in which range the NEXT one must lie (this is what excludes overlong forms,
  surrogates and values past U+10FFFF); every byte after that one ranges over `80..BF`.
-/

namespace Brainfuck.Utf8

/-- The text that the bytes encode, if they are well-formed. -/
def decode? (bytes : List UInt8) : Option String :=
  String.fromUTF8? ⟨bytes.toArray⟩

def encode (text : String) : List UInt8 := text.toUTF8.toList

/-- What is said of bytes that should have been text. -/
def illFormed : String := "stream did not contain valid UTF-8"

/-! ## Reading any bytes -/

/-- What a stretch of bytes reads as. -/
inductive Piece
  | scalar (c : Char)
  | broken
  deriving DecidableEq

namespace Piece

def scalar? : Piece → Option Char
  | scalar c => some c
  | broken => none

def shown : Piece → Char
  | scalar c => c
  | broken => '\ufffd'

end Piece

/-- A scalar value in the making: the value so far, how many bytes are still to come and the
    range of the next one. -/
structure Pending where
  value : Nat
  missing : Nat
  lo : UInt8 := 0x80
  hi : UInt8 := 0xBF

/-- What a first byte begins, if it begins a scalar of more than one byte. -/
def lead (b : UInt8) : Option Pending :=
  if 0xC2 ≤ b ∧ b ≤ 0xDF then some { value := b.toNat % 32, missing := 1 }
  else if b = 0xE0 then some { value := 0, missing := 2, lo := 0xA0 }
  else if b = 0xED then some { value := 13, missing := 2, hi := 0x9F }
  else if 0xE1 ≤ b ∧ b ≤ 0xEF then some { value := b.toNat % 16, missing := 2 }
  else if b = 0xF0 then some { value := 0, missing := 3, lo := 0x90 }
  else if 0xF1 ≤ b ∧ b ≤ 0xF3 then some { value := b.toNat % 8, missing := 3 }
  else if b = 0xF4 then some { value := 4, missing := 3, hi := 0x8F }
  else none

/-- The pieces that a byte completes with nothing pending, and what is pending after it. -/
def begin (b : UInt8) : List Piece × Option Pending :=
  if b < 0x80 then ([.scalar (Char.ofNat b.toNat)], none)
  else match lead b with
    | some p => ([], some p)
    | none => ([.broken], none)

/-- One byte more.  A byte that cannot continue what is pending breaks it off and is then looked
    at afresh. -/
def advance : Option Pending → UInt8 → List Piece × Option Pending
  | none, b => begin b
  | some p, b =>
    if p.lo ≤ b ∧ b ≤ p.hi then
      let value := p.value * 64 + b.toNat % 64
      if p.missing ≤ 1 then ([.scalar (Char.ofNat value)], none)
      else ([], some { value, missing := p.missing - 1 })
    else
      let (completed, next) := begin b
      (.broken :: completed, next)

/-- All pieces of the bytes, continuing what is pending. -/
def piecesFrom : Option Pending → List UInt8 → List Piece
  | none, [] => []
  | some _, [] => [.broken]
  | p, b :: rest =>
    let (completed, next) := advance p b
    completed ++ piecesFrom next rest

def pieces (bytes : List UInt8) : List Piece := piecesFrom none bytes

end Brainfuck.Utf8
