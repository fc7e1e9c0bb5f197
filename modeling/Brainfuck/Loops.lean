/-
  Loop brackets and their partners.

  A `[` belongs to the first `]` at which the nesting depth it opened is back to where it was.
  ONE pass over the program finds all of them: opening brackets wait on a stack (`waiting`,
  innermost first), a closing bracket takes the top one, and the two are written into two
  tables, so that a jump is a look-up afterwards.

  Unbalanced programs are not refused here.  A `]` that finds the stack empty is STRAY, a `[`
  that is still waiting at the end is UNCLOSED; neither gets a partner, and both are listed in
  `unmatched`.  Every stray bracket lies to the left of every unclosed one — a `]` behind a
  waiting `[` would have taken it — so strays followed by the stack, outermost first, is the
  ascending list without any sorting.
-/
import Brainfuck.Instruction

namespace Brainfuck

/-! ## Brackets without a partner -/

/-- Which side of a loop a bracket is on. -/
inductive Side
  | opening
  | closing
  deriving DecidableEq

/-- The bracket itself in quotes, as messages name it. -/
def Side.quoted : Side → String
  | .opening => "'['"
  | .closing => "']'"

/-- A position at which a bracket of the given side has no partner. -/
structure Unmatched where
  index : Nat
  side : Side
  deriving DecidableEq

def Unmatched.message (u : Unmatched) : String :=
  "no matching bracket for " ++ u.side.quoted ++ " at index " ++ toString u.index

/-! ## The pass over the program -/

/-- How far the pass has come: both tables, the brackets still waiting for a partner (innermost
    first), the stray ones so far and the number of pairs. -/
structure Pairing where
  closeTable : Array (Option Nat)
  openTable : Array (Option Nat)
  waiting : List Nat := []
  strays : Array Nat := #[]
  pairs : Nat := 0

namespace Pairing

/-- Before the first instruction of a program of the given length. -/
def start (length : Nat) : Pairing where
  closeTable := .replicate length none
  openTable := .replicate length none

/-- Take note of the instruction at one position. -/
def visit (p : Pairing) (position : Nat) : Instruction → Pairing
  | .loopOpen => { p with waiting := position :: p.waiting }
  | .loopClose =>
    match p.waiting with
    | [] => { p with strays := p.strays.push position }
    | partner :: outer =>
      { p with
        closeTable := p.closeTable.setIfInBounds partner (some position)
        openTable := p.openTable.setIfInBounds position (some partner)
        waiting := outer
        pairs := p.pairs + 1 }
  | _ => p

/-- Visit the instructions of `program`, of which the first stands at `position`. -/
def visitAll : Program → Nat → Pairing → Pairing
  | [], _, p => p
  | i :: program, position, p => visitAll program (position + 1) (p.visit position i)

end Pairing

/-! ## The result -/

/-- The partner of every bracket of one program. -/
structure Loops where
  closeTable : Array (Option Nat) := #[]
  openTable : Array (Option Nat) := #[]
  unmatched : List Unmatched := []
  size : Nat := 0

namespace Loops

/-- No loops at all. -/
def empty : Loops := {}

def ofProgram (program : Program) : Loops :=
  let p := Pairing.visitAll program 0 (Pairing.start program.length)
  { closeTable := p.closeTable
    openTable := p.openTable
    -- Ascending: every stray bracket is to the left of every one that still waits.
    unmatched := p.strays.toList.map (Unmatched.mk · .closing)
      ++ p.waiting.reverse.map (Unmatched.mk · .opening)
    size := p.pairs }

/-- Look a position up in a table of partners; without an entry the bracket of the given side
    there is unmatched. -/
def lookup (table : Array (Option Nat)) (side : Side) (position : Nat) : Except Unmatched Nat :=
  match table[position]? with
  | some (some partner) => .ok partner
  | _ => .error ⟨position, side⟩

/-- The `]` that closes the `[` at a position. -/
def closeOf (l : Loops) (position : Nat) : Except Unmatched Nat :=
  lookup l.closeTable .opening position

/-- The `[` that opens the loop closed by the `]` at a position. -/
def openOf (l : Loops) (position : Nat) : Except Unmatched Nat :=
  lookup l.openTable .closing position

theorem lookup_eq_ok_iff {table : Array (Option Nat)} {side : Side} {position partner : Nat} :
    lookup table side position = .ok partner ↔ table[position]? = some (some partner) := by
  rw [lookup]
  split
  · next entry hentry => rw [hentry]; simp
  · next hnone =>
    constructor
    · intro h
      nomatch h
    · intro h
      exact absurd h (hnone partner)

/-- A look-up succeeds or blames the position it was asked for. -/
theorem lookup_eq_error_iff {table : Array (Option Nat)} {side : Side} {position : Nat} :
    lookup table side position = .error ⟨position, side⟩
      ↔ ∀ partner, lookup table side position ≠ .ok partner := by
  rw [lookup]
  split
  · next entry _ =>
    constructor
    · intro h
      nomatch h
    · intro h
      exact absurd rfl (h entry)
  · constructor
    · intro _ partner h
      nomatch h
    · intro _
      rfl

def isEmpty (l : Loops) : Bool := l.size == 0

/-- All pairs of positions, ascending by the opening one. -/
def pairs (l : Loops) : List (Nat × Nat) :=
  l.closeTable.toList.zipIdx.filterMap fun (close?, opening) => close?.map (opening, ·)

/-- The leftmost bracket without a partner. -/
def firstUnmatched? (l : Loops) : Option Unmatched := l.unmatched.head?

/-- Refuse a program in which some bracket has no partner, and blame the leftmost one. -/
def validate (l : Loops) : Except Unmatched Unit :=
  match l.firstUnmatched? with
  | some u => .error u
  | none => .ok ()

end Loops

end Brainfuck
