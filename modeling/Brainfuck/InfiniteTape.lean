/-
  The tape without an end.

  An infinite tape gives every natural position an integer, zero to begin with, and has a
  pointer.  It needs no growing and its cells never wrap, so each operation is the obvious one;
  only moving left of position 0 is refused.  A growing tape SHOWS part of an infinite one: it
  has the same pointer, the same values as far as it reaches, and beyond that all is zero
  (`Tape.Shows`).
-/
import Brainfuck.Tape

namespace Brainfuck

structure InfiniteTape where
  values : Nat → Int := fun _ => 0
  pointer : Nat := 0

namespace InfiniteTape

def moveRight (t : InfiniteTape) : InfiniteTape := { t with pointer := t.pointer + 1 }

def moveLeft? (t : InfiniteTape) : Option InfiniteTape :=
  if t.pointer = 0 then none else some { t with pointer := t.pointer - 1 }

/-- Change the value under the pointer. -/
def update (f : Int → Int) (t : InfiniteTape) : InfiniteTape :=
  { t with values := fun i => if i = t.pointer then f (t.values i) else t.values i }

def increment (t : InfiniteTape) : InfiniteTape := t.update (· + 1)

def decrement (t : InfiniteTape) : InfiniteTape := t.update (· - 1)

def reset (t : InfiniteTape) : InfiniteTape := t.update fun _ => 0

end InfiniteTape

/-- A tape shows an infinite tape as far as it reaches, and there is nothing beyond. -/
structure Tape.Shows {α : Type} [Cell α] (t : Tape α) (u : InfiniteTape) : Prop where
  pointer : t.pointer = u.pointer
  inside : ∀ i, (h : i < t.cells.size) → Cell.value t.cells[i] = u.values i
  outside : ∀ i, t.cells.size ≤ i → u.values i = 0

/-- Growing is invisible: the cell that is appended shows a zero that was there already. -/
theorem Tape.Shows.moveRight {α : Type} [Cell α] {t : Tape α} {u : InfiniteTape}
    (hzero : Cell.value (Cell.zero : α) = 0) (h : t.Shows u) :
    t.moveRight.Shows u.moveRight := by
  have hlt := t.pointer_lt
  by_cases hin : t.pointer + 1 < t.cells.size
  · rw [Tape.moveRight, dif_pos hin]
    exact ⟨congrArg (· + 1) h.pointer, h.inside, h.outside⟩
  · rw [Tape.moveRight, dif_neg hin]
    refine ⟨congrArg (· + 1) h.pointer, ?_, ?_⟩
    · intro i hi
      show Cell.value (t.cells.push Cell.zero)[i] = u.values i
      rw [Array.getElem_push]
      split
      · exact h.inside i _
      · rw [hzero, h.outside i (by omega)]
    · intro i hi
      have hi : (t.cells.push Cell.zero).size ≤ i := hi
      rw [Array.size_push] at hi
      exact h.outside i (by omega)

end Brainfuck
