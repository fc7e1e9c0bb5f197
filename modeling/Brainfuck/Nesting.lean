/-
  What nesting means, said without a stack.

  `Loops` finds partners in one pass.  This file says what it should find, in the two ways in
  which it is usually said:

  * **by counting.**  Each `[` adds one to the DEPTH and each `]` takes one away.  The partner
    of a `[` is the first position at which the depth, counted from that bracket, is back at
    zero (`Program.Closes`; `Program.closing?` looks for it by scanning).
  * **by a grammar.**  A bracket word is BALANCED if it is empty or if it is a balanced word
    followed by a balanced word in brackets (`Balanced`).

  Both read a program of any kind; instructions that are no brackets count for nothing.
-/
import Brainfuck.Instruction

namespace Brainfuck

/-! ## Counting -/

/-- What an instruction adds to the depth. -/
def Instruction.nesting : Instruction → Int
  | .loopOpen => 1
  | .loopClose => -1
  | _ => 0

namespace Program

/-- The depth at the end of a program that begins at depth 0; negative when brackets were
    closed that are not open. -/
def depth : Program → Int
  | [] => 0
  | i :: program => i.nesting + depth program

theorem depth_append (a b : Program) : depth (a ++ b) = depth a + depth b := by
  induction a with
  | nil => exact (Int.zero_add _).symm
  | cons i a ih => rw [List.cons_append, depth, depth, ih, Int.add_assoc]

/-- How many instructions it takes to come to depth 0 from depth `d`, if that happens. -/
def backToZero? (d : Int) : Program → Option Nat
  | [] => none
  | i :: program =>
    if d + i.nesting = 0 then some 1
    else (backToZero? (d + i.nesting) program).map (· + 1)

/-- The first position, from that of a `[` on, behind which the depth counted from the bracket
    is 0 again. -/
def closing? (program : Program) (opening : Nat) : Option Nat :=
  if program[opening]? = some .loopOpen then
    (backToZero? 0 (program.drop opening)).map (opening + · - 1)
  else none

/-- The depth before a position. -/
def level (program : Program) (n : Nat) : Int := depth (program.take n)

/-- The bracket at `j` closes the `[` at `i`: the depth, counted from 0 before `i`, is back at 0
    behind `j` and behind no position from `i` on before it. -/
structure Closes (program : Program) (i j : Nat) : Prop where
  opening : program[i]? = some .loopOpen
  le : i ≤ j
  lt_length : j < program.length
  back : depth ((program.drop i).take (j + 1 - i)) = 0
  first : ∀ k, i ≤ k → k < j → depth ((program.drop i).take (k + 1 - i)) ≠ 0

/-! ## The grammar -/

/-- The brackets of a program. -/
def brackets (program : Program) : Program :=
  program.filter fun i => i = .loopOpen ∨ i = .loopClose

end Program

inductive Balanced : Program → Prop
  | empty : Balanced []
  | loop {before body : Program} (hbefore : Balanced before) (hbody : Balanced body) :
      Balanced (before ++ .loopOpen :: body ++ [.loopClose])

/-- A balanced word ends at the depth at which it begins. -/
theorem Balanced.depth_eq_zero {word : Program} (h : Balanced word) : word.depth = 0 := by
  induction h with
  | empty => rfl
  | loop _ _ ihbefore ihbody =>
    rw [Program.depth_append, Program.depth_append, Program.depth, ihbefore, ihbody]
    rfl

end Brainfuck
