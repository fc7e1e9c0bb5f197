/-
  The eight instructions, and programs as lists of them.

  A program TEXT is any text at all: the eight characters `< > + - . , [ ]` are instructions
  and every other character is a comment.  Three readings of a text are kept apart, because
  each has its own use:

  * `Program.ofText`     — the instructions of a text, in order: what is run;
  * `Program.toText`     — a program written out again, one character per instruction;
  * `stripComments`      — the text with its comments removed, computed on characters alone:
                           what positions in diagnostics count.

  Positions (of an instruction pointer, of a bracket, in an error) always index the list of
  INSTRUCTIONS, never the raw text, so the last two have to agree: `toText_ofText` says they do.
-/

namespace Brainfuck

inductive Instruction
  | right
  | left
  | increment
  | decrement
  | output
  | input
  | loopOpen
  | loopClose
  deriving DecidableEq, Inhabited

namespace Instruction

/-- The instruction alphabet, in the order in which it is listed to users. -/
def alphabet : List Char := ['<', '>', '+', '-', '.', ',', '[', ']']

def ofChar? : Char → Option Instruction
  | '>' => some .right
  | '<' => some .left
  | '+' => some .increment
  | '-' => some .decrement
  | '.' => some .output
  | ',' => some .input
  | '[' => some .loopOpen
  | ']' => some .loopClose
  | _ => none

def toChar : Instruction → Char
  | right => '>'
  | left => '<'
  | increment => '+'
  | decrement => '-'
  | output => '.'
  | input => ','
  | loopOpen => '['
  | loopClose => ']'

@[simp] theorem ofChar?_toChar (i : Instruction) : ofChar? i.toChar = some i := by
  cases i <;> rfl

theorem toChar_of_ofChar? {c : Char} {i : Instruction} (h : ofChar? c = some i) :
    i.toChar = c := by
  unfold ofChar? at h
  split at h <;> cases h <;> rfl

end Instruction

/-! ## Programs and their texts -/

abbrev Program := List Instruction

/-- The instructions of a text in their order, comments dropped. -/
def Program.ofText (text : String) : Program :=
  text.toList.filterMap Instruction.ofChar?

def Program.toText (program : Program) : String :=
  String.ofList (program.map Instruction.toChar)

/-- The text without its comments. -/
def stripComments (text : String) : String :=
  String.ofList (text.toList.filter fun c => (Instruction.ofChar? c).isSome)

/-- Keeping the instruction characters is the same as reading the instructions and writing
    them out, on any list of characters. -/
theorem map_toChar_filterMap_ofChar? (cs : List Char) :
    (cs.filterMap Instruction.ofChar?).map Instruction.toChar
      = cs.filter fun c => (Instruction.ofChar? c).isSome := by
  induction cs with
  | nil => rfl
  | cons c cs ih =>
    cases h : Instruction.ofChar? c with
    | none => simp [h, ih]
    | some i => simp [h, ih, Instruction.toChar_of_ofChar? h]

/-- A position in the program and a position in the stripped text mean the same thing. -/
theorem Program.toText_ofText (text : String) :
    (Program.ofText text).toText = stripComments text := by
  rw [Program.toText, Program.ofText, map_toChar_filterMap_ofChar?, stripComments]

/-- The characters of a stripped text are its instructions, one for one. -/
theorem toList_stripComments (text : String) :
    (stripComments text).toList = (Program.ofText text).map Instruction.toChar := by
  rw [← Program.toText_ofText, Program.toText, String.toList_ofList]

/-- A program that is written out reads back. -/
theorem Program.ofText_toText (program : Program) : Program.ofText program.toText = program := by
  have hback : Instruction.ofChar? ∘ Instruction.toChar = some :=
    funext Instruction.ofChar?_toChar
  rw [Program.ofText, Program.toText, String.toList_ofList, List.filterMap_map, hback,
    List.filterMap_some]

/-- A stripped text is one line. -/
theorem newline_not_mem_stripComments (text : String) : '\n' ∉ (stripComments text).toList := by
  rw [toList_stripComments, List.mem_map]
  rintro ⟨i, _, hi⟩
  cases i <;> nomatch hi

end Brainfuck
