/-
  Code: a program together with the partners of its brackets, ready to run.

  There are two ways to load a text.  `Code.ofText` takes any text; an unmatched bracket then
  shows only if a jump is attempted through it.  `Code.load` is STRICT: it refuses a text with
  an unmatched bracket before anything runs, and blames the leftmost one.  What the two load is
  the same code.
-/
import Brainfuck.Fault

namespace Brainfuck

structure Code where
  program : Array Instruction
  loops : Loops
  loops_eq : loops = Loops.ofProgram program.toList

namespace Code

def ofProgram (program : Program) : Code where
  program := program.toArray
  loops := Loops.ofProgram program
  loops_eq := by rw [List.toList_toArray]

/-- No program at all. -/
def blank : Code := ofProgram []

/-- Load a text as it is. -/
def ofText (text : String) : Code := ofProgram (Program.ofText text)

/-- Load a text all of whose brackets have partners. -/
def load (text : String) : Except Fault Code :=
  let code := ofText text
  match code.loops.validate with
  | .ok () => .ok code
  | .error u => .error u.toFault

/-- The number of instructions. -/
def size (code : Code) : Nat := code.program.size

/-- The program written out, without the comments of the text it came from. -/
def source (code : Code) : String := Program.toText code.program.toList

theorem source_ofText (text : String) : (ofText text).source = stripComments text := by
  rw [source, ofText, ofProgram, List.toList_toArray, Program.toText_ofText]

/-- Strict loading only ever refuses; it never changes what is loaded. -/
theorem eq_ofText_of_load {text : String} {code : Code} (h : load text = .ok code) :
    code = ofText text := by
  rw [load] at h
  split at h
  · exact (Except.ok.inj h).symm
  · nomatch h

/-- Code that was loaded from a text, strictly or not, is the code of the text. -/
theorem eq_ofText {text : String} {code : Code} (h : load text = .ok code ∨ ofText text = code) :
    code = ofText text := by
  rcases h with hload | hlenient
  · exact eq_ofText_of_load hload
  · exact hlenient.symm

end Code

end Brainfuck
