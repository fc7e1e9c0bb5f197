/-
  Runs: executing a program until it ends, one instruction at a time.

  Real runs and rehearsals are driven by the same loop.  What differs is how a call carries out
  one instruction and what it does at a normal end; that pair is an `Engine` over some world
  `ω`.  Before every instruction the loop looks at three things, in this order:

  1. is the program finished?  Then the call ends normally, whatever limit or flag is set;
  2. is the call canceled?
  3. is its allowance of instructions used up?

  The allowance is counted from zero in every call; it belongs to the call, not to the program.

  **Running for ever.**  A program need not end, so the loop is not a function to a result.
  `tick` is one turn of it and `Engine.run` makes at most as many turns as it is told: the
  answer is either how the call ended or the point it has reached, from which `Engine.run` can
  go on (`run_add`).  A call ENDS if it does so for some number of turns (`Engine.Ends`), and
  then more turns change nothing (`run_of_ended`).
-/
import Brainfuck.Trace

namespace Brainfuck

/-! ## Calls and how far they have come -/

/-- The limits of one call. -/
structure Control (ω : Type) where
  /-- How many instructions may succeed. -/
  limit : Option Nat := none
  /-- Whether the call has been asked to stop. -/
  canceled : ω → Bool := fun _ => false

/-- No limit, and nobody to cancel. -/
def Control.free {ω : Type} : Control ω := {}

/-- A call in progress. -/
structure Run (α ω : Type) where
  state : State α
  world : ω
  /-- Instructions that have succeeded in this call. -/
  steps : Nat := 0

inductive Progress (α ω : Type)
  | running (run : Run α ω)
  | ended (result : Except Fault Unit) (run : Run α ω)

/-- How a call ended, if it has, whatever it took. -/
def Progress.outcome? {α ω : Type} : Progress α ω → Option (Outcome α ω)
  | .running _ => none
  | .ended result run => some ⟨result, run.state, run.world⟩

/-- Where a call has come to, whether it has ended or not. -/
def Progress.point {α ω : Type} : Progress α ω → Run α ω
  | .running run | .ended _ run => run

/-- What a kind of call runs, how it carries out an instruction and how it closes. -/
structure Engine (α ω : Type) where
  code : Code
  /-- Attempt the instruction under the pointer; the number is that of instructions that have
      succeeded before it. -/
  attempt : Nat → State α → ω → Outcome α ω
  /-- What is left to do when the program has ended. -/
  close : ω → Except String Unit × ω

variable {α ω : Type}

/-! ## The loop -/

/-- One turn of the loop. -/
def Engine.tick (engine : Engine α ω) (control : Control ω) (run : Run α ω) : Progress α ω :=
  if run.state.Finished engine.code then
    match engine.close run.world with
    | (.ok (), world) => .ended (.ok ()) { run with world }
    | (.error reason, world) => .ended (.error (.io run.state.ip reason)) { run with world }
  else if control.canceled run.world then
    .ended (.error .canceled) run
  else
    match control.limit with
    | some limit =>
      if limit ≤ run.steps then .ended (.error (.stepLimit limit)) run else turn run
    | none => turn run
where
  /-- The turn of a call that nothing stops. -/
  turn (run : Run α ω) : Progress α ω :=
    let steps := run.steps
    match engine.attempt steps run.state run.world with
    | ⟨.ok (), state, world⟩ => .running { state, world, steps := steps + 1 }
    | ⟨.error fault, state, world⟩ => .ended (.error fault) { state, world, steps }

/-- At most `turns` turns of the loop. -/
def Engine.run (engine : Engine α ω) (control : Control ω) : Nat → Run α ω → Progress α ω
  | 0, run => .running run
  | turns + 1, run =>
    match engine.tick control run with
    | .running run => Engine.run engine control turns run
    | .ended result run => .ended result run

/-- Going on from where a call has come to is the same as not having stopped there. -/
theorem Engine.run_add (engine : Engine α ω) (control : Control ω) (m n : Nat)
    (run : Run α ω) :
    engine.run control (m + n) run
      = match engine.run control m run with
        | .running run => engine.run control n run
        | .ended result run => .ended result run := by
  induction m generalizing run with
  | zero => rw [Nat.zero_add]; rfl
  | succ m ih =>
    rw [Nat.succ_add]
    simp only [Engine.run]
    cases engine.tick control run with
    | running run' => exact ih run'
    | ended result run' => rfl

/-- More turns do not change how a call ended. -/
theorem Engine.run_of_ended {engine : Engine α ω} {control : Control ω} {m n : Nat}
    {run last : Run α ω} {result : Except Fault Unit}
    (h : engine.run control m run = .ended result last) (hmn : m ≤ n) :
    engine.run control n run = .ended result last := by
  obtain ⟨k, rfl⟩ := Nat.exists_eq_add_of_le hmn
  rw [Engine.run_add, h]

/-- A call ends like this, whatever number of turns that takes. -/
def Engine.Ends (engine : Engine α ω) (control : Control ω) (run : Run α ω)
    (o : Outcome α ω) : Prop :=
  ∃ turns, (engine.run control turns run).outcome? = some o

/-! ## The two engines -/

variable [Cell α]

/-- A real run: instructions reach the host, and at the end the output is flushed. -/
def Engine.real {σ : Type} (host : Host σ) (code : Code) : Engine α σ where
  code := code
  attempt _ state world := Brainfuck.attempt host code state world
  close := host.flush

/-- A rehearsal: the world is only told the row of each instruction that succeeded. -/
def Engine.rehearsal (log : Row → ω → ω) (code : Code) : Engine α ω where
  code := code
  attempt step state world :=
    let before := state.snapshot
    let (result, after) := rehearse code state
    match result, code.program[before.ip]? with
    | .ok (), some instruction =>
      let action := Action.between before after.snapshot instruction
      ⟨.ok (), after, log { step, before, instruction, action } world⟩
    | result, _ => ⟨result, after, world⟩
  close world := (.ok (), world)

/-- A call at its beginning. -/
def Run.start (state : State α) (world : ω) : Run α ω := { state, world }

end Brainfuck
