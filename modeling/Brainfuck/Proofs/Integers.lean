/-
  Integers: a machine with words in its cells, and the machine with their integers in them.

  The machine is written for any kind of cell, so the machine that never wraps is this machine with
  integers for words.  `integers` takes the one to the other: it replaces every cell by the integer
  it shows and keeps everything else.

  1. CELLS: where a word does not wrap, its successor and its predecessor are those of its integer
     (`value_succ`, `value_pred`).
  2. TAPES: `integers` commutes with whatever can be done to a tape, but counting only where the
     current cell does not wrap.  `,` counts too, from zero, and no character has so high a code.
  3. INSTRUCTIONS: `integers` commutes with what an instruction wants and with both readers in every
     state that FITS, where the instruction under the pointer does not wrap (`State.Fits`).
  4. ENGINES: the two kinds of call do the same with words and with integers (`Engine.Counts`).
     What does not fit cannot fail, neither here nor there; this is all that is known of it.
-/
import Brainfuck.Proofs.Advance
import Mathlib.Algebra.Group.Int.Defs
import Mathlib.Algebra.Group.Nat.Defs

namespace Brainfuck

/-! ## Cells -/

section Cells

variable {c : Word}

theorem value_succ (h : Cell.value c < 2 ^ 63 - 1) :
    Cell.value (Cell.succ c) = Cell.value c + 1 := by
  have hge := Int64.le_toInt c
  have h : c.toInt < 2 ^ 63 - 1 := h
  show (c + 1).toInt = c.toInt + 1
  rw [Int64.toInt_add]
  show (c.toInt + 1).bmod (2 ^ 64) = _
  exact Int.bmod_eq_of_le (by omega) (by omega)

theorem value_pred (h : -2 ^ 63 < Cell.value c) :
    Cell.value (Cell.pred c) = Cell.value c - 1 := by
  have hlt := Int64.toInt_lt c
  have h : -2 ^ 63 < c.toInt := h
  show (c - 1).toInt = c.toInt - 1
  rw [Int64.toInt_sub]
  show (c.toInt - 1).bmod (2 ^ 64) = _
  exact Int.bmod_eq_of_le (by omega) (by omega)

/-- The byte of a cell is its remainder, and never negative. -/
theorem toNat_byte {α : Type} [Cell α] (c : α) :
    ((Cell.byte c).toNat : Int) = Cell.value c % 256 := by
  have hnonneg : 0 ≤ Cell.value c % 256 := Int.emod_nonneg _ (by decide)
  have hlt : Cell.value c % 256 < 256 := Int.emod_lt_of_pos _ (by decide)
  rw [Cell.byte, UInt8.toNat_ofNat']
  omega

end Cells

/-! ## Translation -/

section Translation

variable {α : Type} [Cell α] {ω : Type}

/-- The tape with the integers of its cells. -/
def Tape.integers (t : Tape α) : Tape Int where
  cells := t.cells.map Cell.value
  pointer := t.pointer
  pointer_lt := by rw [Array.size_map]; exact t.pointer_lt

def State.integers (s : State α) : State Int where
  tape := s.tape.integers
  ip := s.ip

def Effect.integers : Effect α → Effect Int
  | .done next => .done next.integers
  | .emit byte here => .emit byte here.integers
  | .ask here => .ask here.integers
  | .fault cause here => .fault cause here.integers

def Outcome.integers (o : Outcome α ω) : Outcome Int ω where
  result := o.result
  state := o.state.integers
  world := o.world

def Run.integers (run : Run α ω) : Run Int ω where
  state := run.state.integers
  world := run.world
  steps := run.steps

def Progress.integers : Progress α ω → Progress Int ω
  | .running run => .running run.integers
  | .ended result run => .ended result run.integers

def Session.integers (s : Session α) : Session Int where
  code := s.code
  state := s.state.integers
  console := s.console

namespace Tape

@[simp] theorem cell_integers (t : Tape α) : t.integers.cell = Cell.value t.cell := by
  simp [integers, cell]

@[simp] theorem value_integers (t : Tape α) : t.integers.value = t.value := by
  show t.integers.cell = Cell.value t.cell
  exact t.cell_integers

/-- Only the current cell has to be translated again. -/
theorem integers_update {f : α → α} {g : Int → Int} {t : Tape α}
    (h : Cell.value (f t.cell) = g (Cell.value t.cell)) :
    (t.update f).integers = t.integers.update g := by
  refine Tape.ext ?_ rfl
  refine Array.ext (by simp [integers, update]) ?_
  intro i hi hi'
  simp only [integers, update, Array.getElem_map, Array.getElem_modify]
  split
  · next hpointer =>
    subst hpointer
    exact h
  · rfl

theorem integers_moveLeft (t : Tape α) : t.integers.moveLeft = t.moveLeft.map integers := by
  by_cases hpointer : t.pointer = 0
  · have hpointer' : t.integers.pointer = 0 := hpointer
    rw [moveLeft, moveLeft, if_pos hpointer, if_pos hpointer']
    rfl
  · have hpointer' : t.integers.pointer ≠ 0 := hpointer
    rw [moveLeft, moveLeft, if_neg hpointer, if_neg hpointer']
    rfl

end Tape

end Translation

namespace Tape

variable {t : Tape Word} {n : Nat}

theorem integers_blank : (blank : Tape Word).integers = blank := by
  refine Tape.ext ?_ rfl
  show #[(0 : Word)].map Cell.value = #[0]
  rw [List.map_toArray]
  rfl

theorem integers_moveRight (t : Tape Word) : t.moveRight.integers = t.integers.moveRight := by
  by_cases hinside : t.pointer + 1 < t.cells.size
  · have hinside' : t.integers.pointer + 1 < t.integers.cells.size := by
      simpa [integers] using hinside
    rw [moveRight, moveRight, dif_pos hinside, dif_pos hinside']
    rfl
  · have hinside' : ¬ t.integers.pointer + 1 < t.integers.cells.size := by
      simpa [integers] using hinside
    rw [moveRight, moveRight, dif_neg hinside, dif_neg hinside']
    refine Tape.ext ?_ rfl
    exact Array.map_push

theorem integers_increment (h : t.value < 2 ^ 63 - 1) :
    t.increment.integers = t.integers.increment :=
  integers_update (value_succ h)

theorem integers_decrement (h : -2 ^ 63 < t.value) :
    t.decrement.integers = t.integers.decrement :=
  integers_update (value_pred h)

theorem integers_reset (t : Tape Word) : t.reset.integers = t.integers.reset :=
  integers_update rfl

/-- Counting up from zero, an integer arrives at the number that was to be stored. -/
theorem value_store (n : Nat) (t : Tape Int) : (t.store n).value = n := by
  rw [store]
  induction n with
  | zero => exact cell_update _ t
  | succ n ih =>
    have ih : (Nat.repeat increment n t.reset).cell = (n : Int) := ih
    show (update Cell.succ (Nat.repeat increment n t.reset)).cell = _
    rw [cell_update, ih]
    rfl

/-- A word does so too, if the number is one of its integers. -/
theorem integers_store (hn : n < 2 ^ 63) : (t.store n).integers = t.integers.store n := by
  induction n with
  | zero => exact integers_reset t
  | succ n ih =>
    have ih := ih (by omega)
    have hvalue : (t.store n).value = n := by rw [← value_integers, ih, value_store]
    show (t.store n).increment.integers = (t.integers.store n).increment
    rw [integers_increment (by rw [hvalue]; omega), ih]

theorem value_store_word (hn : n < 2 ^ 63) : (t.store n).value = n := by
  rw [← value_integers, integers_store hn, value_store]

end Tape

/-- No character has a code above `0x10FFFF`. -/
theorem Line.answerCode_le (line : Option String) : Line.answerCode line ≤ 0x10FFFF := by
  cases line with
  | none => exact Nat.zero_le _
  | some text =>
    rw [Line.answerCode, Line.code]
    split
    · exact Nat.zero_le _
    · next c _ _ =>
      have hvalid : c.toNat < 55296 ∨ 57343 < c.toNat ∧ c.toNat < 1114112 := c.valid
      omega

/-! ## One instruction -/

section Instructions

variable {σ : Type} {host : Host σ} {code : Code} {s : State Word} {w : σ} {i : Instruction}

/-- The instruction under the pointer does not wrap. -/
structure State.Fits (code : Code) (s : State Word) : Prop where
  increment : code.program[s.ip]? = some .increment → s.tape.value < 2 ^ 63 - 1
  decrement : code.program[s.ip]? = some .decrement → -2 ^ 63 < s.tape.value

theorem effect_integers (hfits : s.Fits code) (hi : code.program[s.ip]? = some i) :
    effect code s.integers i = (effect code s i).integers := by
  have hvalue : s.integers.tape.value = s.tape.value := s.tape.value_integers
  cases i with
  | right =>
    rw [effect, effect, Effect.integers, State.integers, State.integers, Tape.integers_moveRight]
  | left =>
    have hleft : s.integers.tape.moveLeft = s.tape.moveLeft.map Tape.integers :=
      s.tape.integers_moveLeft
    rw [effect, effect, hleft]
    rcases s.tape.moveLeft with ⟨⟨⟩⟩ | tape <;> rfl
  | increment =>
    rw [effect, effect, Effect.integers, State.integers, State.integers,
      Tape.integers_increment (hfits.increment hi)]
  | decrement =>
    rw [effect, effect, Effect.integers, State.integers, State.integers,
      Tape.integers_decrement (hfits.decrement hi)]
  | output =>
    have hcell : s.integers.tape.cell = Cell.value s.tape.cell := s.tape.cell_integers
    rw [effect, effect, hcell]
    rfl
  | input => rfl
  | loopOpen =>
    have hpartner : code.loops.closeOf s.integers.ip = code.loops.closeOf s.ip := rfl
    rw [effect, effect, hvalue, hpartner]
    split
    · cases code.loops.closeOf s.ip <;> rfl
    · rfl
  | loopClose =>
    have hpartner : code.loops.openOf s.integers.ip = code.loops.openOf s.ip := rfl
    rw [effect, effect, hvalue, hpartner]
    split
    · cases code.loops.openOf s.ip <;> rfl
    · rfl

theorem perform_integers (e : Effect Word) (w : σ) :
    e.integers.perform host w = (e.perform host w).integers := by
  cases e with
  | done next => rfl
  | emit byte here =>
    rw [Effect.integers, Effect.perform, Effect.perform]
    rcases host.write byte w with ⟨⟨reason⟩ | ⟨⟨⟩⟩, w'⟩ <;> rfl
  | ask here =>
    rw [Effect.integers, Effect.perform, Effect.perform]
    rcases host.readLine w with ⟨⟨reason⟩ | line, w'⟩
    · rfl
    · have hcode := Line.answerCode_le line
      show Outcome.mk _ (State.mk (here.tape.integers.store _) _) _ = Outcome.mk _ (State.mk _ _) _
      rw [Tape.integers_store (by omega)]
      rfl
  | fault cause here => rfl

theorem suppress_integers (e : Effect Word) :
    e.integers.suppress = (e.suppress.1, e.suppress.2.integers) := by
  cases e with
  | done next => rfl
  | emit byte here => rfl
  | ask here =>
    show (_, State.mk here.tape.integers.reset _) = (_, State.mk here.tape.reset.integers _)
    rw [Tape.integers_reset]
    rfl
  | fault cause here => rfl

/-- Where nothing wraps, a real run does the same to both, -/
theorem attempt_integers (hfits : s.Fits code) (w : σ) :
    attempt host code s.integers w = (attempt host code s w).integers := by
  have hip : code.program[s.integers.ip]? = code.program[s.ip]? := rfl
  rw [attempt, attempt, hip]
  cases hi : code.program[s.ip]? with
  | none => rfl
  | some i =>
    show (effect code s.integers i).perform host w = ((effect code s i).perform host w).integers
    rw [effect_integers hfits hi, perform_integers]

/-- and so does a rehearsal. -/
theorem rehearse_integers (hfits : s.Fits code) :
    rehearse code s.integers = ((rehearse code s).1, (rehearse code s).2.integers) := by
  have hip : code.program[s.integers.ip]? = code.program[s.ip]? := rfl
  rw [rehearse, rehearse, hip]
  cases hi : code.program[s.ip]? with
  | none => rfl
  | some i =>
    show (effect code s.integers i).suppress = _
    rw [effect_integers hfits hi, suppress_integers]

/-- The instruction under the pointer counts up or down. -/
def State.Counting {α : Type} (code : Code) (s : State α) : Prop :=
  code.program[s.ip]? = some .increment ∨ code.program[s.ip]? = some .decrement

/-- Nothing else can wrap, -/
theorem State.counting_of_not_fits (h : ¬ s.Fits code) : s.Counting code := by
  by_cases hincrement : code.program[s.ip]? = some .increment
  · exact .inl hincrement
  · by_cases hdecrement : code.program[s.ip]? = some .decrement
    · exact .inr hdecrement
    · exact absurd ⟨fun hi => absurd hi hincrement, fun hi => absurd hi hdecrement⟩ h

namespace State.Counting

variable {α : Type} [Cell α] {s : State α}

theorem effect_eq (h : s.Counting code) :
    ∃ i next, code.program[s.ip]? = some i ∧ effect code s i = .done next := by
  rcases h with hi | hi
  · exact ⟨_, _, hi, rfl⟩
  · exact ⟨_, _, hi, rfl⟩

/-- and counting cannot fail. -/
theorem attempt_ok (h : s.Counting code) (w : σ) : (attempt host code s w).result = .ok () := by
  obtain ⟨i, next, hi, heffect⟩ := h.effect_eq
  rw [attempt, hi]
  show ((effect code s i).perform host w).result = .ok ()
  rw [heffect]
  rfl

theorem rehearse_ok (h : s.Counting code) : (rehearse code s).1 = .ok () := by
  obtain ⟨i, next, hi, heffect⟩ := h.effect_eq
  rw [rehearse, hi]
  show (effect code s i).suppress.1 = .ok ()
  rw [heffect]
  rfl

end State.Counting

end Instructions

/-! ## Engines -/

section Engines

variable {σ ω : Type}

/-- Two engines do the same, the one with words and the other with integers. -/
structure Engine.Counts (engine : Engine Word ω) (engine' : Engine Int ω) : Prop where
  code : engine'.code = engine.code
  close : engine'.close = engine.close
  fits : ∀ {s : State Word}, s.Fits engine.code → ∀ step w,
    engine'.attempt step s.integers w = (engine.attempt step s w).integers
  /-- An instruction that wraps succeeds at least. -/
  wraps : ∀ {s : State Word}, ¬ s.Fits engine.code → ∀ step w,
    (engine.attempt step s w).result = .ok ()
      ∧ (engine'.attempt step s.integers w).result = .ok ()

theorem Engine.real_counts (host : Host σ) (code : Code) :
    Engine.Counts (Engine.real host code) (Engine.real host code) where
  code := rfl
  close := rfl
  fits hfits _ w := attempt_integers hfits w
  wraps {s} hwraps _ w := by
    have hcounting := State.counting_of_not_fits hwraps
    have hcounting' : s.integers.Counting code := hcounting
    exact ⟨hcounting.attempt_ok w, hcounting'.attempt_ok w⟩

theorem snapshot_integers (s : State Word) : s.integers.snapshot = s.snapshot := by
  rw [State.snapshot, State.snapshot]
  show Snapshot.mk _ _ s.tape.integers.value = _
  rw [Tape.value_integers]
  rfl

theorem Engine.rehearsal_counts (log : Row → ω → ω) (code : Code) :
    Engine.Counts (Engine.rehearsal log code) (Engine.rehearsal log code) where
  code := rfl
  close := rfl
  fits {s} hfits step w := by
    cases hi : code.program[s.ip]? with
    | none =>
      have hi' : code.program[s.integers.ip]? = none := hi
      rw [rehearsal_attempt_of_none hi, rehearsal_attempt_of_none hi']
      rfl
    | some i =>
      have hi' : code.program[s.integers.ip]? = some i := hi
      have hrehearse' : rehearse code s.integers = _ := rehearse_integers hfits
      rcases hrehearse : rehearse code s with ⟨⟨fault⟩ | ⟨⟨⟩⟩, t⟩
      · rw [hrehearse] at hrehearse'
        rw [rehearsal_attempt_of_error hrehearse, rehearsal_attempt_of_error hrehearse']
        rfl
      · rw [hrehearse] at hrehearse'
        have hrow : Row.between step s.integers t.integers i = Row.between step s t i := by
          rw [Row.between, Row.between, snapshot_integers, snapshot_integers]
        rw [rehearsal_attempt_of_ok hi hrehearse, rehearsal_attempt_of_ok hi' hrehearse', hrow]
        rfl
  wraps {s} hwraps step w := by
    have hcounting := State.counting_of_not_fits hwraps
    have hcounting' : s.integers.Counting code := hcounting
    obtain ⟨_, heq, -⟩ := rehearsal_attempt_eq log code step s w
    obtain ⟨_, heq', -⟩ := rehearsal_attempt_eq log code step s.integers w
    rw [heq, heq']
    exact ⟨hcounting.rehearse_ok, hcounting'.rehearse_ok⟩

end Engines

end Brainfuck
