/-
  Products: a counted loop multiplies, and how long it takes.

      a times `+`   `[>`   b times `+`   `<-]>.`

  This is a family of programs, one for each pair of numbers, so that positions, partners and runs
  all depend on both.  What is the same in all of them is said once:

  1. CALLS.  Instructions that succeed are turns of a call, as far as its limit allows.  From the
     end of a program every call ends well, and from any point before it a call ends at its limit
     (`Session.call_of_executes`, `Session.ends_of_executes`); this is so of every program.
  2. TEXT.  The loop's brackets are partners, because between them nothing is a bracket
     (`closes_product`); so the text is loaded strictly (`load_multiplication`).  What stands where
     in its code is all that is used of it (`Code.Multiplies`).
  3. ROUNDS.  One round of the loop adds `b` to the second cell and takes one from the first
     (`executes_round`).  Before the first round there is no second cell yet; it is the `>` that
     makes it, so a round is said of any tape that LOOKS right after `>`.
  4. LOOP.  With `k + 1` on the counter and `n` beside it there are `k + 1` rounds left, and they
     end with nothing on the counter and `n + (k + 1) * b` beside it (`executes_loop`).  This is the
     invariant, and the induction is on the counter.
-/
import Brainfuck.Proofs.Balance
import Brainfuck.Proofs.Input
import Brainfuck.Proofs.Laps
import Brainfuck.Proofs.Simulation
import Brainfuck.Proofs.StepLimit

namespace Brainfuck

/-! ## Calls -/

namespace Session

variable (session : Session) {bounds : Bounds} {n : Nat} {last : State Word} {console : Console}

theorem real_follows (bounds : Bounds) (code : Code) :
    (Engine.real Console.host code : Engine Word Console).Follows bounds.control
      (Stepper.real Console.host code) Prod.mk Console.Calm := by
  refine Engine.real_follows Console.hooked_calm ?_ code
  intro console calm
  show (bounds.cancelable && console.canceled) = false
  rw [calm.canceled, Bool.and_false]

/-- **A program that is finished by its last instruction is run to its end**, and its instructions
    are counted. -/
theorem call_of_executes (calm : session.console.Calm)
    (h : (Stepper.real Console.host session.code).Executes n (session.state, session.console)
      (last, console))
    (hfinished : last.Finished session.code)
    (hroom : ∀ limit, bounds.limit = some limit → n ≤ limit) {turns : Nat} (hturns : n < turns) :
    session.call turns (.run bounds) = some (.ok (), { session with state := last, console })
      ∧ (session.passed turns (.run bounds)).length = n := by
  have hfollows := real_follows bounds session.code
  have hstart : (Run.start session.state session.console).steps + n = n := Nat.zero_add n
  obtain ⟨point, hrun, hpoint, hcalm, hsteps⟩ :=
    hfollows.run_of_executes (Run.start session.state session.console) h rfl calm
      (by rw [hstart]; exact hroom)
  obtain ⟨rfl, rfl⟩ := Prod.mk.inj hpoint
  have hturn : (Engine.real Console.host session.code).Turn bounds.control point _ :=
    .finished hfinished (hfollows.close hcalm)
  have hended : (Engine.real Console.host session.code).run bounds.control (n + 1)
      (Run.start session.state session.console) = .ended (.ok ()) point := by
    rw [Engine.run_add, hrun]
    show (Engine.real Console.host session.code).run bounds.control 1 point = _
    rw [Engine.run, hturn.tick_eq]
    rfl
  have hcall := Engine.run_of_ended hended hturns
  constructor
  · show ended session.code _ = _
    rw [hcall]
    rfl
  · have hpassed := (Engine.real Console.host session.code).steps_point bounds.control turns
      (Run.start session.state session.console)
    rw [hcall] at hpassed
    have hpassed : point.steps = 0 + (session.passed turns (.run bounds)).length := hpassed
    omega

/-- **A limit stops it before its last instruction.** -/
theorem ends_of_executes (calm : session.console.Calm)
    (h : (Stepper.real Console.host session.code).Executes n (session.state, session.console)
      (last, console)) {limit : Nat} (hlimit : bounds.limit = some limit) (hlt : limit < n) :
    ∃ next, session.Ends (.run bounds) (.error (.stepLimit limit)) next := by
  obtain ⟨rest, rfl⟩ := Nat.exists_eq_add_of_lt hlt
  rw [Nat.add_assoc] at h
  obtain ⟨point, hfirst, hrest⟩ := h.split
  have hunfinished : ¬ (Stepper.real Console.host session.code).Finished point := by
    cases hrest with
    | more hunfinished _ _ => exact hunfinished
  obtain ⟨o, ⟨turns, ho⟩, hresult, -⟩ := (real_follows bounds session.code).ends_of_ending hlimit
    calm (.limited hfirst hunfinished)
  refine ⟨{ session with state := o.state, console := o.world }, turns, ?_⟩
  show Option.map _ _ = _
  rw [ho, ← hresult]
  rfl

end Session

/-! ## Text -/

/-- A program that multiplies two numbers. -/
def multiplication (a b : Nat) : String :=
  String.ofList (List.replicate a '+' ++ ['[', '>'] ++ List.replicate b '+'
    ++ ['<', '-', ']', '>', '.'])

/-- Its instructions. -/
def Program.product (a b : Nat) : Program :=
  List.replicate a .increment ++ .loopOpen :: .right :: (List.replicate b .increment
    ++ [.left, .decrement, .loopClose, .right, .output])

namespace Program

theorem ofText_multiplication (a b : Nat) : ofText (multiplication a b) = product a b := by
  simp [ofText, multiplication, product, List.filterMap_append, Instruction.ofChar?]

/-- Instructions that are no brackets do not bring the scan back. -/
theorem backToZero?_replicate_increment (b : Nat) (program : Program) :
    backToZero? 1 (List.replicate b .increment ++ program)
      = (backToZero? 1 program).map (· + b) := by
  induction b with
  | zero => simp
  | succ b ih =>
    rw [List.replicate_succ, List.cons_append, backToZero?, if_neg (by decide)]
    show (backToZero? 1 _).map _ = _
    rw [ih, Option.map_map]
    rfl

theorem drop_product (a b : Nat) : (product a b).drop a
    = .loopOpen :: .right :: (List.replicate b .increment
      ++ [.left, .decrement, .loopClose, .right, .output]) :=
  List.drop_left' List.length_replicate

/-- **The two brackets are partners.** -/
theorem closes_product (a b : Nat) : (product a b).Closes a (a + (b + 4)) := by
  have hdrop : (product a b).drop a = .loopOpen :: (.right :: (List.replicate b .increment
      ++ [.left, .decrement, .loopClose, .right, .output]) ++ []) := by
    rw [drop_product, List.append_nil]
  rw [closes_iff_backToZero? hdrop (by simp), backToZero?, if_neg (by decide)]
  show (backToZero? 1 _).map _ = _
  rw [backToZero?_replicate_increment]
  show some (3 + b + 1) = some (b + 4)
  congr 1
  omega

/-- They are the only ones. -/
theorem balanced_product (a b : Nat) : Balanced (product a b).brackets := by
  have hbrackets : (product a b).brackets = [] ++ .loopOpen :: [] ++ [.loopClose] := by
    simp [brackets, product]
  rw [hbrackets]
  exact .loop .empty .empty

end Program

/-- What the code of a product is, place by place. -/
structure Code.Multiplies (code : Code) (a b : Nat) : Prop where
  count : ∀ i < a, code.program[i]? = some .increment
  opening : code.program[a]? = some .loopOpen
  right : code.program[a + 1]? = some .right
  add : ∀ i < b, code.program[a + 2 + i]? = some .increment
  left : code.program[a + b + 2]? = some .left
  decrement : code.program[a + b + 3]? = some .decrement
  closing : code.program[a + b + 4]? = some .loopClose
  behind : code.program[a + b + 5]? = some .right
  output : code.program[a + b + 6]? = some .output
  size_eq : code.size = a + b + 7
  closeOf : code.loops.closeOf a = .ok (a + b + 4)
  openOf : code.loops.openOf (a + b + 4) = .ok a

namespace Code

theorem load_multiplication (a b : Nat) :
    load (multiplication a b) = .ok (ofText (multiplication a b)) := by
  have hnested : (Program.ofText (multiplication a b)).WellNested := by
    rw [Program.ofText_multiplication, ← Program.balanced_brackets_iff]
    exact Program.balanced_product a b
  exact load_eq_ok_iff.mpr (Loops.validate_eq_ok_iff.mpr hnested)

theorem multiplies_multiplication (a b : Nat) : (ofText (multiplication a b)).Multiplies a b := by
  have hcode : ofText (multiplication a b) = ofProgram (Program.product a b) := by
    rw [ofText, Program.ofText_multiplication]
  have hget (i : Nat) : (ofText (multiplication a b)).program[i]? = (Program.product a b)[i]? := by
    rw [hcode]
    exact List.getElem?_toArray
  have hloop (i : Nat) : (Program.product a b)[a + i]?
      = (.loopOpen :: .right :: (List.replicate b .increment
        ++ [.left, .decrement, .loopClose, .right, .output]) : Program)[i]? := by
    rw [← Program.drop_product, List.getElem?_drop]
  have hbehind (i : Nat) : (Program.product a b)[a + b + 2 + i]?
      = ([.left, .decrement, .loopClose, .right, .output] : Program)[i]? := by
    have hplace : a + b + 2 + i = a + (b + i + 2) := by omega
    rw [hplace, hloop, List.getElem?_cons_succ, List.getElem?_cons_succ,
      List.getElem?_append_right (by simp)]
    simp
  have hcloses : (Program.product a b).Closes a (a + b + 4) := Program.closes_product a b
  constructor
  case count =>
    intro i hi
    rw [hget, Program.product, List.getElem?_append_left (by simpa using hi)]
    exact List.getElem?_replicate_of_lt hi
  case opening => exact (hget _).trans (hloop 0)
  case right => exact (hget _).trans (hloop 1)
  case add =>
    intro i hi
    have hplace : a + 2 + i = a + (i + 2) := by omega
    rw [hget, hplace, hloop, List.getElem?_cons_succ, List.getElem?_cons_succ,
      List.getElem?_append_left (by simpa using hi)]
    exact List.getElem?_replicate_of_lt hi
  case left => exact (hget _).trans (hbehind 0)
  case decrement => exact (hget _).trans (hbehind 1)
  case closing => exact (hget _).trans (hbehind 2)
  case behind => exact (hget _).trans (hbehind 3)
  case output => exact (hget _).trans (hbehind 4)
  case size_eq =>
    rw [hcode, size, ofProgram, List.size_toArray, Program.product]
    simp
    omega
  case closeOf =>
    rw [hcode]
    exact Loops.closeOf_eq_ok_iff.mpr hcloses
  case openOf =>
    rw [hcode]
    exact Loops.openOf_eq_ok_iff.mpr hcloses

end Code

/-! ## Tapes -/

namespace Tape

variable {k n : Nat}

theorem update_id (t : Tape Word) : t.update (· + Int64.ofNat 0) = t := by
  refine Tape.ext ?_ rfl
  refine Array.ext (by simp [update]) ?_
  intro i hi hi'
  simp [update, Array.getElem_modify]

/-- A number is counted up in a single cell, -/
def counter (k : Nat) : Tape Word where
  cells := #[Int64.ofNat k]
  pointer := 0
  pointer_lt := Nat.zero_lt_one

/-- or there is a second cell beside it, and the pointer is at one of the two. -/
def counters (k n : Nat) (side : Fin 2) : Tape Word where
  cells := #[Int64.ofNat k, Int64.ofNat n]
  pointer := side
  pointer_lt := side.isLt

theorem update_blank (k : Nat) : Tape.blank.update (· + Int64.ofNat k) = counter k := by
  refine Tape.ext ?_ rfl
  show #[(0 : Word) + Int64.ofNat k] = #[Int64.ofNat k]
  rw [Int64.zero_add]

theorem moveRight_counter (k : Nat) : (counter k).moveRight = counters k 0 1 := rfl

theorem moveRight_counters (k n : Nat) : (counters k n 0).moveRight = counters k n 1 := rfl

theorem moveLeft_counters (k n : Nat) : (counters k n 1).moveLeft = .ok (counters k n 0) := rfl

theorem update_counters (k n b : Nat) :
    (counters k n 1).update (· + Int64.ofNat b) = counters k (n + b) 1 := by
  refine Tape.ext ?_ rfl
  show #[Int64.ofNat k, Int64.ofNat n + Int64.ofNat b] = _
  rw [← Int64.ofNat_add]
  rfl

theorem decrement_counters (k n : Nat) : (counters (k + 1) n 0).decrement = counters k n 0 := by
  refine Tape.ext ?_ rfl
  show #[Int64.ofNat (k + 1) - 1, Int64.ofNat n] = #[Int64.ofNat k, Int64.ofNat n]
  rw [Int64.ofNat_add]
  show #[Int64.ofNat k + 1 - 1, Int64.ofNat n] = _
  rw [Int64.add_sub_cancel]

theorem value_ofNat (hn : n < 2 ^ 63) : Cell.value (Int64.ofNat n) = n :=
  Int64.toInt_ofNat_of_lt hn

theorem value_counter (hk : k < 2 ^ 63) : (counter k).value = k := value_ofNat hk

theorem value_counters (hk : k < 2 ^ 63) : (counters k n 0).value = k := value_ofNat hk

theorem map_value_counters (hk : k < 2 ^ 63) (hn : n < 2 ^ 63) (side : Fin 2) :
    (counters k n side).cells.map Cell.value = #[(k : Int), (n : Int)] := by
  simp [counters, value_ofNat hk, value_ofNat hn]

end Tape

/-! ## Runs -/

variable {σ : Type} {host : Host σ} {code : Code} {a b k n p : Nat} {t : Tape Word} {w w' : σ}

/-- An instruction that asks nothing of the host. -/
theorem executes_one {i : Instruction} {next : State Word} (hi : code.program[p]? = some i)
    (heffect : effect code { tape := t, ip := p } i = .done next) :
    (Stepper.real host code).Executes 1 ({ tape := t, ip := p }, w) (next, w) := by
  refine .one (State.not_finished hi) ?_
  show ((attempt host code _ w).result, (attempt host code _ w).state,
    (attempt host code _ w).world) = _
  rw [attempt_of_getElem? hi, heffect]
  rfl

theorem executes_increments (host : Host σ) (w : σ) (t : Tape Word)
    (hadd : ∀ i < n, code.program[p + i]? = some .increment) :
    (Stepper.real host code).Executes n ({ tape := t, ip := p }, w)
      ({ tape := t.update (· + Int64.ofNat n), ip := p + n }, w) := by
  induction n with
  | zero =>
    rw [Tape.update_id]
    exact .none
  | succ n ih =>
    have hinit := ih fun i hi => hadd i (Nat.lt_succ_of_lt hi)
    refine hinit.append (executes_one (hadd n (Nat.lt_succ_self n)) ?_)
    rw [effect, Tape.increment, Tape.update_update, Int64.ofNat_add]
    simp only [← Int64.add_assoc]
    rfl

namespace Code.Multiplies

variable (h : code.Multiplies a b) (host : Host σ) (w : σ)

include h

/-- **One round of the loop**, from behind its `[` to its `]`. -/
theorem executes_round (ht : t.moveRight = Tape.counters (k + 1) n 1) :
    (Stepper.real host code).Executes (b + 3) ({ tape := t, ip := a + 1 }, w)
      ({ tape := Tape.counters k (n + b) 0, ip := a + b + 4 }, w) := by
  have hright : (Stepper.real host code).Executes 1 ({ tape := t, ip := a + 1 }, w)
      ({ tape := Tape.counters (k + 1) n 1, ip := a + 2 }, w) :=
    executes_one h.right (by rw [effect, ht])
  have hadd : (Stepper.real host code).Executes b
      ({ tape := Tape.counters (k + 1) n 1, ip := a + 2 }, w)
      ({ tape := Tape.counters (k + 1) (n + b) 1, ip := a + 2 + b }, w) := by
    rw [← Tape.update_counters]
    exact executes_increments host w _ h.add
  have hleft : (Stepper.real host code).Executes 1
      ({ tape := Tape.counters (k + 1) (n + b) 1, ip := a + b + 2 }, w)
      ({ tape := Tape.counters (k + 1) (n + b) 0, ip := a + b + 3 }, w) :=
    executes_one h.left (by rw [effect, Tape.moveLeft_counters])
  have hdecrement : (Stepper.real host code).Executes 1
      ({ tape := Tape.counters (k + 1) (n + b) 0, ip := a + b + 3 }, w)
      ({ tape := Tape.counters k (n + b) 0, ip := a + b + 4 }, w) :=
    executes_one h.decrement (by rw [effect, Tape.decrement_counters])
  rw [Nat.add_right_comm] at hadd
  have hround := (hright.append hadd).append (hleft.append hdecrement)
  have hsteps : 1 + b + (1 + 1) = b + 3 := by omega
  rwa [hsteps] at hround

/-- **All rounds that are left**, from behind the `[` to behind the `]`. -/
theorem executes_loop (hk : k + 1 < 2 ^ 63) (ht : t.moveRight = Tape.counters (k + 1) n 1) :
    (Stepper.real host code).Executes ((k + 1) * (b + 4)) ({ tape := t, ip := a + 1 }, w)
      ({ tape := Tape.counters 0 (n + (k + 1) * b) 0, ip := a + b + 5 }, w) := by
  induction k generalizing t n with
  | zero =>
    have hround := h.executes_round host w ht
    have hleave : (Stepper.real host code).Executes 1
        ({ tape := Tape.counters 0 (n + b) 0, ip := a + b + 4 }, w)
        ({ tape := Tape.counters 0 (n + b) 0, ip := a + b + 5 }, w) := by
      refine executes_one h.closing ?_
      rw [effect, Tape.value_counters (by decide), if_neg (by decide)]
      rfl
    rw [Nat.zero_add, Nat.one_mul, Nat.one_mul]
    exact hround.append hleave
  | succ k ih =>
    have hround := h.executes_round host w ht
    have hagain : (Stepper.real host code).Executes 1
        ({ tape := Tape.counters (k + 1) (n + b) 0, ip := a + b + 4 }, w)
        ({ tape := Tape.counters (k + 1) (n + b) 0, ip := a + 1 }, w) := by
      refine executes_one h.closing ?_
      rw [effect, Tape.value_counters (by omega), if_pos (by omega), h.openOf]
      rfl
    have hrest := ih (by omega) (Tape.moveRight_counters (k + 1) (n + b))
    have hproduct : n + b + (k + 1) * b = n + (k + 1 + 1) * b := by
      rw [Nat.succ_mul (k + 1)]
      omega
    have hsteps : b + 3 + 1 + (k + 1) * (b + 4) = (k + 1 + 1) * (b + 4) := by
      rw [Nat.succ_mul (k + 1)]
      omega
    rw [hproduct] at hrest
    rw [← hsteps]
    exact (hround.append hagain).append hrest

/-- Behind the loop stands the counter, at zero, and beside it the product. -/
theorem exists_executes_loop (ha : a < 2 ^ 63) :
    ∃ t : Tape Word, t.moveRight = Tape.counters 0 (a * b) 1
      ∧ (Stepper.real host code).Executes (1 + a * (b + 4)) ({ tape := Tape.counter a, ip := a }, w)
        ({ tape := t, ip := a + b + 5 }, w) := by
  cases a with
  | zero =>
    -- There is only one cell yet.
    rw [Nat.zero_mul, Nat.zero_mul]
    refine ⟨Tape.counter 0, Tape.moveRight_counter 0, executes_one h.opening ?_⟩
    rw [effect, Tape.value_counter ha, if_pos (by decide), h.closeOf]
    rfl
  | succ k =>
    have henter : (Stepper.real host code).Executes 1
        ({ tape := Tape.counter (k + 1), ip := k + 1 }, w)
        ({ tape := Tape.counter (k + 1), ip := k + 1 + 1 }, w) := by
      refine executes_one h.opening ?_
      rw [effect, Tape.value_counter ha, if_neg (by omega)]
      rfl
    have hloop := h.executes_loop host w ha (Tape.moveRight_counter (k + 1))
    rw [Nat.zero_add] at hloop
    exact ⟨_, Tape.moveRight_counters _ _, henter.append hloop⟩

/-- **The whole program**, up to what the host makes of the byte. -/
theorem executes_all (ha : a < 2 ^ 63) (hproduct : a * b < 2 ^ 63)
    (hwrite : host.write (UInt8.ofNat (a * b % 256)) w = (.ok (), w')) :
    (Stepper.real host code).Executes (a * (b + 5) + 3) (State.initial, w)
      ({ tape := Tape.counters 0 (a * b) 1, ip := a + b + 7 }, w') := by
  have hcount : (Stepper.real host code).Executes a (State.initial, w)
      ({ tape := Tape.counter a, ip := a }, w) := by
    have hplaces : ∀ i < a, code.program[0 + i]? = some .increment := by
      intro i hi
      rw [Nat.zero_add]
      exact h.count i hi
    have hcount := executes_increments host w Tape.blank hplaces
    rwa [Tape.update_blank, Nat.zero_add] at hcount
  obtain ⟨t, ht, hloop⟩ := h.exists_executes_loop host w ha
  have hright : (Stepper.real host code).Executes 1 ({ tape := t, ip := a + b + 5 }, w)
      ({ tape := Tape.counters 0 (a * b) 1, ip := a + b + 6 }, w) :=
    executes_one h.behind (by rw [effect, ht])
  have hbyte : Cell.byte (Tape.counters 0 (a * b) 1).cell = UInt8.ofNat (a * b % 256) := by
    show UInt8.ofNat (Cell.value (Int64.ofNat (a * b)) % 256).toNat = _
    rw [Tape.value_ofNat hproduct]
    rfl
  have houtput : (Stepper.real host code).Executes 1
      ({ tape := Tape.counters 0 (a * b) 1, ip := a + b + 6 }, w)
      ({ tape := Tape.counters 0 (a * b) 1, ip := a + b + 7 }, w') := by
    refine .one (State.not_finished h.output) ?_
    show ((attempt host code _ w).result, (attempt host code _ w).state,
      (attempt host code _ w).world) = _
    rw [attempt_of_getElem? h.output, effect, hbyte, Effect.perform, hwrite]
    rfl
  have hsteps : a + (1 + a * (b + 4)) + (1 + 1) = a * (b + 5) + 3 := by
    rw [Nat.mul_succ a (b + 4)]
    omega
  rw [← hsteps]
  exact (hcount.append hloop).append (hright.append houtput)

end Code.Multiplies

namespace Session

/-- **A counted loop multiplies.**  The program for `a` and `b` is loaded strictly.  From a blank
    tape and with a collector, a run with no limit, or with one that suffices, ends well after
    `a * (b + 5) + 3` instructions exactly: the tape is a zero and the product, with the pointer at
    the product, and one byte has been collected, the product modulo 256.  With any smaller limit
    the run ends at the limit.

    Neither number needs to be positive.  That they are small is needed for the cells only, which
    hold no number from 2^63 on. -/
theorem counted_loop_multiplies (a b : Nat) (hsmall : a * (b + 5) + 3 < 2 ^ 63) (console : Console)
    (calm : console.Calm) :
    ∃ code, Code.load (multiplication a b) = .ok code
      ∧ (∃ tape : Tape Word, tape.pointer = 1
        ∧ tape.cells.map Cell.value = #[0, ((a * b : Nat) : Int)]
        ∧ ∀ bounds : Bounds,
          (∀ limit, bounds.limit = some limit → a * (b + 5) + 3 ≤ limit) →
          ∀ turns, a * (b + 5) + 3 < turns →
            ({ code, console } : Session).call turns (.run bounds)
                = some (.ok (), {
                    code
                    state := { tape, ip := code.size }
                    console := { console with
                      collected := console.collected.push (UInt8.ofNat (a * b % 256)) } })
              ∧ (({ code, console } : Session).passed turns (.run bounds)).length
                = a * (b + 5) + 3)
      ∧ ∀ (bounds : Bounds) (limit : Nat), bounds.limit = some limit → limit < a * (b + 5) + 3 →
        ∃ next,
          ({ code, console } : Session).Ends (.run bounds) (.error (.stepLimit limit)) next := by
  have hmultiplies := Code.multiplies_multiplication a b
  have hle : a * b + a * 5 + 3 < 2 ^ 63 := by rwa [← Nat.mul_add]
  have hproduct : a * b < 2 ^ 63 := by omega
  have hwrite : console.write (UInt8.ofNat (a * b % 256)) = (.ok (), { console with
      collected := console.collected.push (UInt8.ofNat (a * b % 256)) }) := by
    rw [Console.write, if_pos calm.collecting]
    exact congrArg (Prod.mk _) (Console.notice_eq_self calm.tripwire)
  have hexecutes := hmultiplies.executes_all Console.host console (by omega) hproduct hwrite
  rw [← hmultiplies.size_eq] at hexecutes
  have hfinished (tape : Tape Word) : State.Finished (Code.ofText (multiplication a b))
      { tape, ip := (Code.ofText (multiplication a b)).size } := Nat.le_refl _
  refine ⟨_, Code.load_multiplication a b, ⟨Tape.counters 0 (a * b) 1, rfl, ?_, ?_⟩, ?_⟩
  · exact Tape.map_value_counters (by decide) hproduct 1
  · intro bounds hroom turns hturns
    exact call_of_executes { code := Code.ofText (multiplication a b), console } calm hexecutes
      (hfinished _) hroom hturns
  · intro bounds limit hlimit hlt
    exact ends_of_executes { code := Code.ofText (multiplication a b), console } calm hexecutes
      hlimit hlt

/-- Eight times eight is written as `@`, by 107 instructions and not by 106.  Nothing times two
    takes three. -/
theorem eight_times_eight_is_written :
    (∃ next, ({ code := Code.ofText "++++++++[>++++++++<-]>.",
                console := { collecting := true } } : Session).call 108 (.run { limit := some 107 })
          = some (.ok (), next)
        ∧ next.state.tape.cells.map Cell.value = #[0, 64] ∧ next.console.collected = #[64])
      ∧ (∃ next, ({ code := Code.ofText "++++++++[>++++++++<-]>.",
                    console := { collecting := true } } : Session).Ends
          (.run { limit := some 106 }) (.error (.stepLimit 106)) next)
      ∧ (({ code := Code.ofText "[>++<-]>.", console := { collecting := true } } : Session).passed 4
          (.run {})).length = 3 := by
  obtain ⟨code, hload, ⟨tape, -, hcells, hcall⟩, hlimited⟩ :=
    counted_loop_multiplies 8 8 (by decide) { collecting := true } ⟨rfl, rfl, rfl⟩
  obtain rfl := Code.eq_ofText_of_load hload
  obtain ⟨code, hload, ⟨tape, -, -, hnone⟩, -⟩ :=
    counted_loop_multiplies 0 2 (by decide) { collecting := true } ⟨rfl, rfl, rfl⟩
  obtain rfl := Code.eq_ofText_of_load hload
  refine ⟨⟨_, (hcall { limit := some 107 } ?_ 108 (by decide)).1, hcells, rfl⟩, ?_, ?_⟩
  · intro limit hlimit
    exact Nat.le_of_eq (Option.some.inj hlimit)
  · exact hlimited { limit := some 106 } 106 rfl (by decide)
  · exact (hnone {} (fun _ h => nomatch h) 4 (by decide)).2

end Session

end Brainfuck
