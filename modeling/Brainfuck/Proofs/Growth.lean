/-
  Growth: a tape that grows on demand is an infinite one as far as it has been explored.

  Five operations act on a tape, and each of them acts on the infinite tape too (`InfiniteTape`).
  Carried out side by side, the two agree:

  1. STEP.  An operation keeps `Tape.Shows`: same pointer, same values where there are cells, and
     zeros beyond them.  Counting does so where the word does not wrap, which is asked of the
     INFINITE tape alone: there the value after the operation has to be one of a word's
     (`Tape.Shows.after`).
  2. LENGTH.  An operation makes the row as long as it was or as the pointer needs it
     (`Tape.size_after`).  What the row is like after many operations is therefore not a matter of
     the pointer now but of the furthest it has ever been (`InfiniteTape.furthest`).
  3. RUN.  By induction on the operations, both at once (`Tape.Shows.afterAll`).

  That nothing is overwritten by coming back to it needs no infinite tape: an operation leaves
  every cell alone but the one under the pointer, and a move leaves that one alone too
  (`Tape.getElem?_after`).
-/
import Brainfuck.InfiniteTape
import Brainfuck.Proofs.Integers
import Mathlib.Data.List.Infix

namespace Brainfuck

/-! ## Operations -/

inductive TapeOperation
  | right
  | left
  | increment
  | decrement
  | reset
  deriving DecidableEq

/-- Moves only move the pointer. -/
def TapeOperation.IsMove : TapeOperation → Prop
  | .right | .left => True
  | .increment | .decrement | .reset => False

namespace Tape

variable {α : Type} [Cell α]

/-- Carry out an operation, if it is not refused. -/
def perform (t : Tape α) : TapeOperation → Except Underflow (Tape α)
  | .right => .ok t.moveRight
  | .left => t.moveLeft
  | .increment => .ok t.increment
  | .decrement => .ok t.decrement
  | .reset => .ok t.reset

/-- The tape behind an operation; one that is refused leaves it as it is. -/
def after (t : Tape α) (op : TapeOperation) : Tape α :=
  match t.perform op with
  | .ok u => u
  | .error _ => t

/-- The tape behind some operations. -/
def afterAll (t : Tape α) (ops : List TapeOperation) : Tape α := ops.foldl after t

end Tape

namespace InfiniteTape

/-- The value under the pointer. -/
def value (u : InfiniteTape) : Int := u.values u.pointer

def perform? (u : InfiniteTape) : TapeOperation → Option InfiniteTape
  | .right => some u.moveRight
  | .left => u.moveLeft?
  | .increment => some u.increment
  | .decrement => some u.decrement
  | .reset => some u.reset

def after (u : InfiniteTape) (op : TapeOperation) : InfiniteTape := (u.perform? op).getD u

def afterAll (u : InfiniteTape) (ops : List TapeOperation) : InfiniteTape := ops.foldl after u

/-- How far to the right the pointer is at the beginning or gets on the way. -/
def furthest (u : InfiniteTape) : List TapeOperation → Nat
  | [] => u.pointer
  | op :: ops => max u.pointer ((u.after op).furthest ops)

/-- The value under the pointer is always one that a word has. -/
def StaysWithinWords (u : InfiniteTape) (ops : List TapeOperation) : Prop :=
  ∀ done, done <+: ops → -2 ^ 63 ≤ (u.afterAll done).value ∧ (u.afterAll done).value < 2 ^ 63

instance (u : InfiniteTape) (ops : List TapeOperation) : Decidable (u.StaysWithinWords ops) :=
  decidable_of_iff (∀ done ∈ ops.inits,
      -2 ^ 63 ≤ (u.afterAll done).value ∧ (u.afterAll done).value < 2 ^ 63)
    (forall_congr' fun done => imp_congr_left (List.mem_inits done ops))

variable {u : InfiniteTape} {op : TapeOperation} {ops : List TapeOperation}

theorem StaysWithinWords.cons (h : u.StaysWithinWords (op :: ops)) :
    (u.after op).StaysWithinWords ops := by
  intro done hdone
  exact h (op :: done) (List.cons_prefix_cons.mpr ⟨rfl, hdone⟩)

theorem StaysWithinWords.head (h : u.StaysWithinWords (op :: ops)) :
    -2 ^ 63 ≤ (u.after op).value ∧ (u.after op).value < 2 ^ 63 :=
  h [op] (List.cons_prefix_cons.mpr ⟨rfl, List.nil_prefix⟩)

theorem pointer_le_furthest (u : InfiniteTape) (ops : List TapeOperation) :
    u.pointer ≤ u.furthest ops := by
  cases ops with
  | nil => exact Nat.le_refl _
  | cons op ops => exact Nat.le_max_left _ _

@[simp] theorem value_update (f : Int → Int) (u : InfiniteTape) : (u.update f).value = f u.value :=
  if_pos rfl

end InfiniteTape

/-! ## One operation -/

namespace Tape

section Cells

variable {α : Type} [Cell α] {t : Tape α} {op : TapeOperation} {i : Nat}

omit [Cell α] in
theorem moveLeft_of_pointer_eq_succ (h : t.pointer = i + 1) :
    ∃ v, t.moveLeft = .ok v ∧ v.cells = t.cells ∧ v.pointer = i := by
  have hpos : ¬ t.pointer = 0 := by omega
  rw [moveLeft, if_neg hpos]
  exact ⟨_, rfl, rfl, by show t.pointer - 1 = i; omega⟩

/-- A move to the left changes no cell, refused or not. -/
theorem cells_after_left (t : Tape α) : (t.after .left).cells = t.cells := by
  rw [after, perform]
  split
  · next hleft => exact (moveLeft_eq_ok hleft).1
  · rfl

theorem cells_moveRight (t : Tape α) :
    t.moveRight.cells
      = if t.pointer + 1 < t.cells.size then t.cells else t.cells.push Cell.zero := by
  by_cases hinside : t.pointer + 1 < t.cells.size
  · rw [moveRight, dif_pos hinside, if_pos hinside]
  · rw [moveRight, dif_neg hinside, if_neg hinside]

/-- **The row is as long as it was, or as the pointer needs it.** -/
theorem size_after (t : Tape α) (op : TapeOperation) :
    (t.after op).cells.size = max t.cells.size ((t.after op).pointer + 1) := by
  have hlt := t.pointer_lt
  have hupdate (f : α → α) :
      (t.update f).cells.size = max t.cells.size ((t.update f).pointer + 1) := by
    rw [size_update, pointer_update]
    omega
  cases op with
  | right =>
    show t.moveRight.cells.size = max t.cells.size (t.moveRight.pointer + 1)
    rw [size_moveRight, pointer_moveRight]
  | left =>
    have hcells := t.cells_after_left
    have hlt' := (t.after .left).pointer_lt
    rw [hcells] at hlt' ⊢
    omega
  | increment => exact hupdate _
  | decrement => exact hupdate _
  | reset => exact hupdate _

omit [Cell α] in
/-- Changing the current cell leaves the others alone. -/
theorem getElem?_update_of_ne (f : α → α) (h : i ≠ t.pointer) :
    (t.update f).cells[i]? = t.cells[i]? := by
  rw [update, Array.getElem?_modify, if_neg (Ne.symm h)]

/-- **An operation changes at most the cell under the pointer**, and a move changes none. -/
theorem getElem?_after (hi : i < t.cells.size) (h : op.IsMove ∨ i ≠ t.pointer) :
    (t.after op).cells[i]? = t.cells[i]? := by
  cases op with
  | right =>
    show t.moveRight.cells[i]? = _
    rw [cells_moveRight]
    split
    · rfl
    · rw [Array.getElem?_push_lt hi, Array.getElem?_eq_getElem hi]
  | left => rw [cells_after_left]
  | increment => exact getElem?_update_of_ne _ (h.resolve_left id)
  | decrement => exact getElem?_update_of_ne _ (h.resolve_left id)
  | reset => exact getElem?_update_of_ne _ (h.resolve_left id)

/-- There and back again: at most a zero has been appended. -/
theorem moveRight_moveLeft (t : Tape α) :
    ∃ v, t.moveRight.moveLeft = .ok v ∧ v.pointer = t.pointer
      ∧ v.cells = if t.pointer + 1 < t.cells.size then t.cells else t.cells.push Cell.zero := by
  obtain ⟨v, hleft, hcells, hpointer⟩ := moveLeft_of_pointer_eq_succ t.pointer_moveRight
  exact ⟨v, hleft, hpointer, by rw [hcells, cells_moveRight]⟩

end Cells

/-! ## Beside the infinite tape -/

section Shows

variable {α : Type} [Cell α] {t : Tape α} {u : InfiniteTape}

/-- What is read is the same. -/
theorem Shows.value_eq (h : t.Shows u) : t.value = u.value := by
  rw [InfiniteTape.value, ← h.pointer]
  exact h.inside t.pointer t.pointer_lt

/-- The cells are the beginning of the infinite tape. -/
theorem Shows.map_value_cells (h : t.Shows u) :
    t.cells.toList.map Cell.value = (List.range t.cells.size).map u.values := by
  apply List.ext_getElem
  · simp
  · intro i hi hi'
    rw [List.length_map, Array.length_toList] at hi
    simpa using h.inside i hi

theorem Shows.moveLeft (h : t.Shows u) : (t.after .left).Shows (u.after .left) := by
  have hpointer := h.pointer
  rw [Tape.after, Tape.perform, InfiniteTape.after, InfiniteTape.perform?, Tape.moveLeft,
    InfiniteTape.moveLeft?]
  by_cases hzero : t.pointer = 0
  · rw [if_pos hzero, if_pos (hpointer ▸ hzero)]
    exact h
  · rw [if_neg hzero, if_neg (hpointer ▸ hzero)]
    exact ⟨congrArg (· - 1) hpointer, h.inside, h.outside⟩

/-- A change of the current cell is shown if its new value is right. -/
theorem Shows.update (h : t.Shows u) {f : α → α} {g : Int → Int}
    (hvalue : Cell.value (f t.cell) = g u.value) : (t.update f).Shows (u.update g) := by
  have hlt := t.pointer_lt
  refine ⟨h.pointer, ?_, ?_⟩
  · intro i hi
    have hi' : i < t.cells.size := by rwa [size_update] at hi
    simp only [Tape.update, InfiniteTape.update, Array.getElem_modify, ← h.pointer]
    by_cases heq : t.pointer = i
    · subst heq
      rw [if_pos rfl, if_pos rfl]
      rw [InfiniteTape.value, ← h.pointer] at hvalue
      exact hvalue
    · rw [if_neg heq, if_neg (Ne.symm heq)]
      exact h.inside i hi'
  · intro i hi
    rw [size_update] at hi
    have hne : i ≠ u.pointer := by
      have := h.pointer
      omega
    show (if i = u.pointer then _ else _) = _
    rw [if_neg hne]
    exact h.outside i hi

end Shows

variable {t : Tape Word} {u : InfiniteTape}

/-- **One operation keeps both tapes alike** if its result is one of a word's values. -/
theorem Shows.after (h : t.Shows u) {op : TapeOperation}
    (hwithin : -2 ^ 63 ≤ (u.after op).value ∧ (u.after op).value < 2 ^ 63) :
    (t.after op).Shows (u.after op) := by
  have hvalue : Cell.value t.cell = u.value := h.value_eq
  cases op with
  | right => exact h.moveRight rfl
  | left => exact h.moveLeft
  | increment =>
    have hafter : (u.after .increment).value = u.value + 1 :=
      InfiniteTape.value_update (· + 1) u
    have hcell : Cell.value (Cell.succ t.cell) = u.value + 1 := by
      rw [value_succ (by omega), hvalue]
    exact h.update (g := (· + 1)) hcell
  | decrement =>
    have hafter : (u.after .decrement).value = u.value - 1 :=
      InfiniteTape.value_update (· - 1) u
    have hcell : Cell.value (Cell.pred t.cell) = u.value - 1 := by
      rw [value_pred (by omega), hvalue]
    exact h.update (g := (· - 1)) hcell
  | reset => exact h.update (f := fun _ => Cell.zero) (g := fun _ => 0) rfl

/-- **Any number of operations keeps both tapes alike**, and the row is as long as the furthest
    point has made it. -/
theorem Shows.afterAll (h : t.Shows u) {ops : List TapeOperation}
    (hwithin : u.StaysWithinWords ops) :
    (t.afterAll ops).Shows (u.afterAll ops)
      ∧ (t.afterAll ops).cells.size = max t.cells.size (u.furthest ops + 1) := by
  induction ops generalizing t u with
  | nil =>
    have hlt := t.pointer_lt
    have hpointer := h.pointer
    refine ⟨h, ?_⟩
    show t.cells.size = max t.cells.size (u.pointer + 1)
    omega
  | cons op ops ih =>
    have hafter := h.after hwithin.head
    obtain ⟨hshows, hsize⟩ := ih hafter hwithin.cons
    refine ⟨hshows, ?_⟩
    have hlt := t.pointer_lt
    have hpointer := h.pointer
    have hlength := t.size_after op
    have hpointer' := hafter.pointer
    have hfurthest := InfiniteTape.pointer_le_furthest (u.after op) ops
    show ((t.after op).afterAll ops).cells.size
      = max t.cells.size (max u.pointer ((u.after op).furthest ops) + 1)
    omega

end Tape

/-! ## Coming back -/

namespace Tape

variable {α : Type} [Cell α]

/-- **A cell keeps its value however often the pointer comes back to it**, until an operation
    other than a move is carried out there. -/
theorem getElem?_afterAll {t : Tape α} {ops : List TapeOperation} {i : Nat}
    (hi : i < t.cells.size)
    (h : ∀ done op rest, ops = done ++ op :: rest → ¬ op.IsMove → (t.afterAll done).pointer ≠ i) :
    (t.afterAll ops).cells[i]? = t.cells[i]? := by
  induction ops generalizing t with
  | nil => rfl
  | cons op ops ih =>
    have hop : op.IsMove ∨ i ≠ t.pointer := by
      by_cases hmove : op.IsMove
      · exact .inl hmove
      · exact .inr (Ne.symm (h [] op ops rfl hmove))
    have hi' : i < (t.after op).cells.size := by
      rw [size_after]
      omega
    have hrest := ih hi' fun done op' rest hops =>
      h (op :: done) op' rest (congrArg (List.cons op) hops)
    exact hrest.trans (getElem?_after hi hop)

end Tape

/-! ## The refinement -/

/-- The tape is the beginning of the infinite one, up to and including a position, and of what is
    beyond nothing has been changed.  Both refuse to move left in the same places. -/
structure Tape.IsBeginningOf {α : Type} [Cell α] (t : Tape α) (u : InfiniteTape) (last : Nat) :
    Prop where
  pointer_eq : t.pointer = u.pointer
  value_eq : t.value = u.value
  cells_eq : t.cells.toList.map Cell.value = (List.range (last + 1)).map u.values
  beyond : ∀ i, last < i → u.values i = 0
  refused_iff : t.moveLeft = .error .leftOfZero ↔ u.pointer = 0
  after_refused : u.pointer = 0 → t.after .left = t

theorem Tape.Shows.isBeginningOf {α : Type} [Cell α] {t : Tape α} {u : InfiniteTape} {last : Nat}
    (h : t.Shows u) (hsize : t.cells.size = last + 1) : t.IsBeginningOf u last where
  pointer_eq := h.pointer
  value_eq := h.value_eq
  cells_eq := by rw [h.map_value_cells, hsize]
  beyond i hi := h.outside i (by omega)
  refused_iff := by rw [Tape.moveLeft_eq_error_iff, h.pointer]
  after_refused hzero := by
    rw [← h.pointer] at hzero
    rw [Tape.after, Tape.perform, Tape.moveLeft_eq_error_iff.mpr hzero]

/-- At first there is one cell to see. -/
theorem Tape.shows_blank : (Tape.blank : Tape Word).Shows {} where
  pointer := rfl
  inside i hi := by
    obtain rfl : i = 0 := Nat.lt_one_iff.mp hi
    rfl
  outside _ _ := rfl

/-- **The growing tape refines the infinite one.**  After any operations whose values are those of
    words, it is the infinite tape up to the furthest point that the pointer has reached.

    So, whatever tape it is: moving right and left again restores the pointer and all cells, and
    appends one zero at most; an operation changes no other cell than the current one; and a cell
    that is left and visited again has the value it had, unless something other than a move has
    been done to it in between. -/
theorem growing_tape_refines_infinite :
    (∀ ops : List TapeOperation, ({} : InfiniteTape).StaysWithinWords ops →
      ((Tape.blank : Tape Word).afterAll ops).IsBeginningOf (InfiniteTape.afterAll {} ops)
        (InfiniteTape.furthest {} ops))
    ∧ (∀ t : Tape Word, ∃ v, t.moveRight.moveLeft = .ok v ∧ v.pointer = t.pointer
        ∧ (v.cells = t.cells ∨ v.cells = t.cells.push 0))
    ∧ (∀ (t : Tape Word) (op : TapeOperation) (i : Nat), i < t.cells.size → i ≠ t.pointer →
        (t.after op).cells[i]? = t.cells[i]?)
    ∧ ∀ (t : Tape Word) (ops : List TapeOperation) (i : Nat), i < t.cells.size →
        (∀ done op rest, ops = done ++ op :: rest → ¬ op.IsMove → (t.afterAll done).pointer ≠ i) →
        (t.afterAll ops).cells[i]? = t.cells[i]? := by
  refine ⟨?_, ?_, ?_, ?_⟩
  · intro ops hwithin
    obtain ⟨hshows, hsize⟩ := Tape.shows_blank.afterAll hwithin
    refine hshows.isBeginningOf ?_
    rw [hsize]
    show max 1 (InfiniteTape.furthest {} ops + 1) = _
    omega
  · intro t
    obtain ⟨v, hleft, hpointer, hcells⟩ := t.moveRight_moveLeft
    refine ⟨v, hleft, hpointer, ?_⟩
    rw [hcells]
    split
    · exact .inl rfl
    · exact .inr rfl
  · intro t op i hi hne
    exact Tape.getElem?_after hi (.inr hne)
  · intro t ops i hi h
    exact Tape.getElem?_afterAll hi h

/-- A cell is made and counted up, a move to the left is refused, and the cell is there again. -/
theorem refused_move_and_return :
    ({} : InfiniteTape).StaysWithinWords [.right, .increment, .left, .left, .decrement, .right]
      ∧ ((Tape.blank : Tape Word).afterAll
          [.right, .increment, .left, .left, .decrement, .right]).cells.toList.map Cell.value
        = [-1, 1] := by
  have hwithin : ({} : InfiniteTape).StaysWithinWords
      [.right, .increment, .left, .left, .decrement, .right] := by decide
  exact ⟨hwithin, (growing_tape_refines_infinite.1 _ hwithin).cells_eq⟩

end Brainfuck
