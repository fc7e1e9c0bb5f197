/-
  Structured programs: loops as trees, and what running a tree means.

  The machine jumps between positions of a flat list.  Here a program is decomposed once into
  BLOCKS — simple instructions, loops with their bodies, and the brackets without a partner —
  and is run by recursion on the blocks, with no instruction pointer at all.  Positions are
  kept in the tree for one purpose only: a fault names the instruction that failed.  An
  instruction that is no bracket does not look at the code around it, so blocks are run without
  any (`Code.blank`).

  `Block.Runs` is one relation over sequences of blocks.  A loop whose cell is not zero runs
  its body and then ITSELF AGAIN, followed by what comes after it; so a run that never ends has
  no derivation, and there is nothing else to say about it.
-/
import Brainfuck.Machine
import Brainfuck.Nesting

namespace Brainfuck

/-- A sequence of blocks. -/
inductive Block
  | done
  /-- An instruction that is no bracket. -/
  | simple (position : Nat) (i : Instruction) (rest : Block)
  | loop (opening : Nat) (body rest : Block)
  /-- A `]` that closes nothing. -/
  | stray (position : Nat) (rest : Block)
  /-- A `[` that nothing closes. -/
  | unclosed (position : Nat) (rest : Block)

namespace Block

/-- The blocks of a program whose first instruction stands at `position`. -/
def ofProgram (position : Nat) : Program → Block
  | [] => done
  | .loopOpen :: program =>
    match Program.backToZero? 1 program with
    | some n =>
      loop position (ofProgram (position + 1) (program.take (n - 1)))
        (ofProgram (position + n + 1) (program.drop n))
    | none => unclosed position (ofProgram (position + 1) program)
  | .loopClose :: program => stray position (ofProgram (position + 1) program)
  | i :: program => simple position i (ofProgram (position + 1) program)
termination_by program => program.length
decreasing_by
  all_goals simp only [List.length_cons, List.length_take, List.length_drop]; omega

/-- The end of a run of blocks. -/
structure Finish (α σ : Type) where
  result : Except Fault Unit
  tape : Tape α
  world : σ

variable {α σ : Type} [Cell α]

/-- Blocks, begun with a tape and a world, run to their finish. -/
inductive Runs (host : Host σ) : Block → Tape α → σ → Finish α σ → Prop
  | done {t : Tape α} {w : σ} : Runs host done t w ⟨.ok (), t, w⟩
  /-- An instruction succeeds, and the rest is run. -/
  | simple {position : Nat} {i : Instruction} {rest : Block} {t : Tape α} {w : σ}
      {next : State α} {world : σ} {finish : Finish α σ}
      (h : (effect .blank { tape := t, ip := position } i).perform host w = ⟨.ok (), next, world⟩)
      (hrest : Runs host rest next.tape world finish) :
      Runs host (.simple position i rest) t w finish
  /-- An instruction fails, and nothing more is run. -/
  | fails {position : Nat} {i : Instruction} {rest : Block} {t : Tape α} {w : σ}
      {cause : Fault} {here : State α} {world : σ}
      (h : (effect .blank { tape := t, ip := position } i).perform host w
        = ⟨.error cause, here, world⟩) :
      Runs host (.simple position i rest) t w ⟨.error cause, here.tape, world⟩
  /-- The cell is zero: the loop is over. -/
  | skip {opening : Nat} {body rest : Block} {t : Tape α} {w : σ} {finish : Finish α σ}
      (hzero : t.value = 0) (hrest : Runs host rest t w finish) :
      Runs host (.loop opening body rest) t w finish
  /-- The cell is not zero: the body, and the loop again. -/
  | again {opening : Nat} {body rest : Block} {t t' : Tape α} {w w' : σ} {finish : Finish α σ}
      (hvalue : t.value ≠ 0) (hbody : Runs host body t w ⟨.ok (), t', w'⟩)
      (hloop : Runs host (.loop opening body rest) t' w' finish) :
      Runs host (.loop opening body rest) t w finish
  /-- The body fails, and the loop with it. -/
  | breaks {opening : Nat} {body rest : Block} {t t' : Tape α} {w w' : σ} {cause : Fault}
      (hvalue : t.value ≠ 0) (hbody : Runs host body t w ⟨.error cause, t', w'⟩) :
      Runs host (.loop opening body rest) t w ⟨.error cause, t', w'⟩
  | passStray {position : Nat} {rest : Block} {t : Tape α} {w : σ} {finish : Finish α σ}
      (hzero : t.value = 0) (hrest : Runs host rest t w finish) :
      Runs host (.stray position rest) t w finish
  | failStray {position : Nat} {rest : Block} {t : Tape α} {w : σ} (hvalue : t.value ≠ 0) :
      Runs host (.stray position rest) t w ⟨.error (.unmatched position .closing), t, w⟩
  | passUnclosed {position : Nat} {rest : Block} {t : Tape α} {w : σ} {finish : Finish α σ}
      (hvalue : t.value ≠ 0) (hrest : Runs host rest t w finish) :
      Runs host (.unclosed position rest) t w finish
  | failUnclosed {position : Nat} {rest : Block} {t : Tape α} {w : σ} (hzero : t.value = 0) :
      Runs host (.unclosed position rest) t w ⟨.error (.unmatched position .opening), t, w⟩

end Block

end Brainfuck
