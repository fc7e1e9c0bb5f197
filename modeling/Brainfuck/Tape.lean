/-
  The memory: a row of cells that grows to the right, and the pointer into it.

  A tape starts as one zero cell.  Moving right past the last cell appends a zero cell, moving
  left of cell 0 is refused, and nothing ever removes a cell or moves one, so a cell once
  visited keeps its place and its value until an instruction changes it.  That the pointer is
  inside the row is part of the TYPE (`pointer_lt`): reading a cell needs no default.

  **Cells are a parameter.**  The machine that runs stores signed 64-bit words, which wrap
  around (`Word`).  Whether wrapping can ever be seen is a question about the same machine with
  another kind of cell, so everything below is written for a `Cell`: something with a zero, a
  successor, a predecessor and an integer value.  `Int` is the cell that never wraps.
-/

namespace Brainfuck

/-! ## Cells -/

/-- What a tape can hold: a counter that starts at zero, goes up and down by one, and shows an
    integer. -/
class Cell (α : Type) where
  zero : α
  succ : α → α
  pred : α → α
  value : α → Int

/-- Signed 64-bit words: `2^63 - 1` steps up to `-2^63`, and back down. -/
abbrev Word := Int64

instance : Cell Word where
  zero := 0
  succ c := c + 1
  pred c := c - 1
  value c := c.toInt

instance : Cell Int where
  zero := 0
  succ c := c + 1
  pred c := c - 1
  value c := c

/-- The byte a cell is written as: its value modulo 256, taken in `0..255` for negative values
    too. -/
def Cell.byte {α : Type} [Cell α] (c : α) : UInt8 :=
  UInt8.ofNat (Cell.value c % 256).toNat

/-! ## The tape -/

@[ext] structure Tape (α : Type) where
  cells : Array α
  pointer : Nat
  pointer_lt : pointer < cells.size

namespace Tape

/-- The one way a tape operation fails. -/
inductive Underflow
  | leftOfZero

def Underflow.message : Underflow → String
  | .leftOfZero => "data pointer is already at cell 0"

variable {α : Type} [Cell α]

/-- A single zero cell under the pointer. -/
def blank : Tape α where
  cells := #[Cell.zero]
  pointer := 0
  pointer_lt := Nat.zero_lt_one

instance : Inhabited (Tape α) := ⟨blank⟩

/-- The cell under the pointer. -/
def cell (t : Tape α) : α :=
  have := t.pointer_lt
  t.cells[t.pointer]

/-- The integer shown by the cell under the pointer. -/
def value (t : Tape α) : Int := Cell.value t.cell

/-- One cell to the right, appending a zero cell when there is none yet. -/
def moveRight (t : Tape α) : Tape α :=
  if h : t.pointer + 1 < t.cells.size then
    { t with pointer := t.pointer + 1, pointer_lt := h }
  else
    { cells := t.cells.push Cell.zero
      pointer := t.pointer + 1
      pointer_lt := by have := t.pointer_lt; rw [Array.size_push]; omega }

/-- One cell to the left; cell 0 has none. -/
def moveLeft (t : Tape α) : Except Underflow (Tape α) :=
  if t.pointer = 0 then .error .leftOfZero
  else .ok { t with
    pointer := t.pointer - 1
    pointer_lt := Nat.lt_of_le_of_lt (Nat.sub_le ..) t.pointer_lt }

/-- Change the cell under the pointer and no other. -/
def update (f : α → α) (t : Tape α) : Tape α :=
  { t with
    cells := t.cells.modify t.pointer f
    pointer_lt := by rw [Array.size_modify]; exact t.pointer_lt }

def increment (t : Tape α) : Tape α := t.update Cell.succ

def decrement (t : Tape α) : Tape α := t.update Cell.pred

def reset (t : Tape α) : Tape α := t.update fun _ => Cell.zero

/-- Store a natural number in the current cell: start again from zero and count up.  A cell
    knows no numbers, only zero and successor, so counting is how one is written into it. -/
def store (n : Nat) (t : Tape α) : Tape α := Nat.repeat increment n t.reset

/-! ## What each operation leaves alone -/

omit [Cell α] in
@[simp] theorem pointer_update (f : α → α) (t : Tape α) : (t.update f).pointer = t.pointer := rfl

omit [Cell α] in
@[simp] theorem size_update (f : α → α) (t : Tape α) :
    (t.update f).cells.size = t.cells.size := by
  rw [update, Array.size_modify]

omit [Cell α] in
@[simp] theorem cell_update (f : α → α) (t : Tape α) : (t.update f).cell = f t.cell := by
  simp [update, cell, Array.getElem_modify]

@[simp] theorem pointer_moveRight (t : Tape α) : t.moveRight.pointer = t.pointer + 1 := by
  rw [moveRight]; split <;> rfl

@[simp] theorem pointer_store (n : Nat) (t : Tape α) : (t.store n).pointer = t.pointer := by
  rw [store]
  induction n with
  | zero => rfl
  | succ n ih => rw [Nat.repeat, increment, pointer_update, ih]

@[simp] theorem size_store (n : Nat) (t : Tape α) :
    (t.store n).cells.size = t.cells.size := by
  rw [store]
  induction n with
  | zero => exact size_update _ t
  | succ n ih => rw [Nat.repeat, increment, size_update, ih]

omit [Cell α] in
/-- Moving left only moves the pointer. -/
theorem moveLeft_eq_ok {t u : Tape α} (h : t.moveLeft = .ok u) :
    u.cells = t.cells ∧ u.pointer + 1 = t.pointer := by
  rw [moveLeft] at h
  split at h
  · cases h
  · next hpointer =>
    obtain rfl := Except.ok.inj h
    exact ⟨rfl, Nat.succ_pred hpointer⟩

omit [Cell α] in
/-- Moving left is refused at cell 0 only. -/
theorem moveLeft_eq_error_iff {t : Tape α} : t.moveLeft = .error .leftOfZero ↔ t.pointer = 0 := by
  rw [moveLeft]
  split
  · next hzero => exact ⟨fun _ => hzero, fun _ => rfl⟩
  · next hpos => exact ⟨fun h => (nomatch h), fun h => absurd h hpos⟩

/-- The row never shrinks, and grows by at most one cell. -/
theorem size_moveRight (t : Tape α) :
    t.moveRight.cells.size = max t.cells.size (t.pointer + 2) := by
  have := t.pointer_lt
  rw [moveRight]
  split
  · show t.cells.size = _; omega
  · show (t.cells.push _).size = _; rw [Array.size_push]; omega

end Tape

end Brainfuck
