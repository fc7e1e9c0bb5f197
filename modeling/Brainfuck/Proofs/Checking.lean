/-
  Checking: what `check` says about a program, and that a strict `run` says the same.

  1. The code of a command.  `Command.Carries` says when a command has code at all: no help is
     asked for, and there is ONE source, which can be read.  Both commands begin with it.
  2. The verdict.  `check` asks the brackets of the text itself and `run` loads the text, but both
     come down to the validation of the same loops.  `Command.check_eq` and `Command.launch_eq` put
     both in the words of loading, and there the two reports are one.
  3. The listing.  What an accepted text is answered with is read off the pairs of its brackets:
     `ListsLoops` says which lists of pairs are the right ones, in terms of the printed line alone.
-/
import Brainfuck.Cli.Command
import Brainfuck.Proofs.Pairs

namespace Brainfuck.Cli

variable {c : Command} {name text : String} {w : World}

/-! ## The code of a command -/

/-- The command is about the program with this text: it does not ask for help, and the text is in
    the arguments or in the file it names, but not in both. -/
inductive Command.Carries (c : Command) (w : World) (text : String) : Prop
  | arguments (hhelp : c.options.help = false) (hfile : c.options.file = none) (hcode : c.code ≠ [])
      (htext : String.join c.code = text)
  | file {path : String} (hhelp : c.options.help = false) (hfile : c.options.file = some path)
      (hcode : c.code = []) (htext : w.readText (Path.ofText path) = .ok text)

/-- What a command is about does not depend on the name it goes by. -/
theorem Command.text_eq_ok_iff : c.text name w = .ok text ↔ c.Carries w text := by
  constructor
  · intro h
    rw [Command.text] at h
    split at h
    · nomatch h
    · next hhelp =>
      rw [Bool.not_eq_true] at hhelp
      split at h
      · nomatch h
      · next hfile hcode => exact .arguments hhelp hfile hcode (Except.ok.inj h)
      · next path hfile hcode =>
        split at h
        · next htext =>
          obtain rfl := Except.ok.inj h
          exact .file hhelp hfile hcode htext
        · nomatch h
      · nomatch h
  · rintro (⟨hhelp, hfile, hcode, htext⟩ | ⟨hhelp, hfile, hcode, htext⟩)
    · obtain ⟨part, rest, hparts⟩ := List.exists_cons_of_ne_nil hcode
      rw [hparts] at htext
      simp [Command.text, hhelp, hfile, hparts, htext]
    · simp [Command.text, hhelp, hfile, hcode, htext]

/-! ## The verdict -/

theorem Command.check_eq (h : c.Carries w text) :
    c.check name w = match Code.load text with
      | .ok code => { exit := 0, stdout := Utf8.encode (checked text code.loops) }
      | .error fault => .fault name (stripComments text) fault := by
  have htext : c.text name w = .ok text := text_eq_ok_iff.mpr h
  cases hload : Code.load text with
  | ok code =>
    obtain rfl := Code.eq_ofText_of_load hload
    have hvalidate : (Loops.ofProgram (Program.ofText text)).validate = .ok () :=
      Code.load_eq_ok_iff.mp hload
    simp only [Command.check, htext, hvalidate]
    rfl
  | error fault =>
    obtain ⟨u, hvalidate, rfl⟩ := Code.load_eq_error_iff.mp hload
    have hvalidate : (Loops.ofProgram (Program.ofText text)).validate = .error u := hvalidate
    simp only [Command.check, htext, hvalidate]
    rfl

/-- The launch of a command with code, in the words of loading. -/
theorem Command.launch_eq (h : c.Carries w text) :
    c.launch name w =
      if (Settings.resolve c.flags w).strictBrackets then
        match Code.load text with
        | .ok code =>
          .ok { name, code, debug := c.options.debug, settings := .resolve c.flags w }
        | .error fault => .error (.fault name (stripComments text) fault)
      else
        .ok { name, code := .ofText text, debug := c.options.debug,
              settings := .resolve c.flags w } := by
  have htext : c.text name w = .ok text := text_eq_ok_iff.mpr h
  cases hload : Code.load text with
  | ok code => simp only [Command.launch, htext, hload]
  | error fault => simp only [Command.launch, htext, hload]

/-! ## The listing -/

/-- The line for one loop. -/
def pairLine : Nat × Nat → String
  | (opening, close) => toString opening ++ " -> " ++ toString close ++ "\n"

theorem checked_eq (text : String) (loops : Loops) :
    checked text loops = stripComments text ++ "\n" ++ String.join (loops.pairs.map pairLine) := by
  have hfold (pairs : List (Nat × Nat)) (out : String) :
      pairs.foldl
          (fun out (opening, close) => out ++ toString opening ++ " -> " ++ toString close ++ "\n")
          out
        = out ++ String.join (pairs.map pairLine) := by
    induction pairs generalizing out with
    | nil => simp
    | cons pair pairs ih =>
      rw [List.foldl_cons, ih, List.map_cons, String.join_cons]
      simp only [pairLine, String.append_assoc]
  exact hfold _ _

/-- The text strictly between two positions. -/
def inner (text : String) (i j : Nat) : String :=
  String.ofList ((text.toList.drop (i + 1)).take (j - (i + 1)))

/-- These are the loops of a line: in the order of their beginnings, as many as there are `[`, and
    each from a `[` to a `]` with balanced text between them. -/
structure ListsLoops (line : String) (pairs : List (Nat × Nat)) : Prop where
  ascending : pairs.Pairwise fun p q => p.1 < q.1
  length_eq : pairs.length = line.toList.count '['
  opening : ∀ p ∈ pairs, line.toList[p.1]? = some '['
  closing : ∀ p ∈ pairs, line.toList[p.2]? = some ']'
  lt : ∀ p ∈ pairs, p.1 < p.2
  balanced : ∀ p ∈ pairs, Balanced (Program.ofText (inner line p.1 p.2)).brackets

/-- **The pairs of a program that is accepted are the loops of its line.** -/
theorem listsLoops_pairs (h : (Program.ofText text).WellNested) :
    ListsLoops (stripComments text) (Loops.ofProgram (Program.ofText text)).pairs := by
  refine ⟨Loops.pairs_ascending _, ?_, ?_, ?_, ?_, ?_⟩
  · have hcount (program : Program) :
        program.count .loopOpen = (program.map Instruction.toChar).count '[' := by
      induction program with
      | nil => rfl
      | cons i program ih =>
        rw [List.map_cons, List.count_cons, List.count_cons, ih]
        cases i <;> rfl
    rw [Loops.length_pairs h, toList_stripComments, hcount]
  · rintro ⟨i, j⟩ hpair
    rw [toList_stripComments, List.getElem?_map, (Loops.mem_pairs_iff.mp hpair).opening]
    rfl
  · rintro ⟨i, j⟩ hpair
    rw [toList_stripComments, List.getElem?_map, (Loops.mem_pairs_iff.mp hpair).closing]
    rfl
  · rintro ⟨i, j⟩ hpair
    exact (Loops.mem_pairs_iff.mp hpair).lt
  · rintro ⟨i, j⟩ hpair
    rw [inner, toList_stripComments, ← List.map_drop, ← List.map_take, ← Program.toText,
      Program.ofText_toText]
    exact Program.balanced_brackets_iff.mpr (Loops.mem_pairs_iff.mp hpair).wellNested_body

/-! ## Two commands, one verdict -/

/-- **`check` and a strict `run` judge a program alike.**  For commands about one text, wherever
    each has it from: `check` succeeds exactly if the text can be loaded, and exactly then `run`
    has something to launch; its answer is the program on one line and one more line for each of
    its loops.  Otherwise `check` fails without output, and what it reports is exactly what `run`
    reports in place of a launch. -/
theorem check_judges_like_strict_run {run : Command} {w' : World} (name : String)
    (hcheck : c.Carries w text) (hrun : run.Carries w' text)
    (hstrict : (Settings.resolve run.flags w').strictBrackets = true) :
    ((c.check name w).exit = 0 ↔ ∃ code, Code.load text = .ok code)
      ∧ (∀ code, Code.load text = .ok code →
          (∃ launch, run.launch name w' = .ok launch)
          ∧ '\n' ∉ (stripComments text).toList
          ∧ ∃ pairs, ListsLoops (stripComments text) pairs
            ∧ c.check name w =
              { exit := 0
                stdout := Utf8.encode
                  (stripComments text ++ "\n" ++ String.join (pairs.map pairLine))
                stderr := "" })
      ∧ ∀ fault, Code.load text = .error fault →
          (c.check name w).exit = 1 ∧ (c.check name w).stdout = []
          ∧ run.launch name w' = .error (c.check name w) := by
  rw [Command.check_eq hcheck, Command.launch_eq hrun, if_pos hstrict]
  refine ⟨?_, ?_, ?_⟩
  · cases Code.load text with
    | ok code => exact ⟨fun _ => ⟨code, rfl⟩, fun _ => rfl⟩
    | error fault => exact ⟨fun h => (nomatch h), fun ⟨_, h⟩ => (nomatch h)⟩
  · intro code hload
    obtain rfl := Code.eq_ofText_of_load hload
    have hnested : (Program.ofText text).WellNested :=
      Loops.validate_eq_ok_iff.mp (Code.load_eq_ok_iff.mp hload)
    rw [hload]
    refine ⟨⟨_, rfl⟩, newline_not_mem_stripComments text, _, listsLoops_pairs hnested, ?_⟩
    rw [← checked_eq]
    rfl
  · intro fault hload
    rw [hload]
    exact ⟨rfl, rfl, rfl⟩

/-- A stray `]` behind a comment, in two arguments here and in a file there, and a program that both
    commands accept. -/
theorem check_and_run_of_two_texts :
    let bare : World := { env := fun _ => none, file := fun _ => .error .notFound }
    let filed : World := { bare with file := fun _ => .ok [0xC3, 0xA9, 0x2B, 0x5D, 0x2B] }
    ({ subcommand := .run, options := { debug := true, file := some "a" } } : Command).launch "bf"
          filed
        = .error (({ subcommand := .check, code := ["é+", "]+"] } : Command).check "bf" bare)
      ∧ (({ subcommand := .check, code := ["[a[-]", "+]"] } : Command).check "bf" bare).exit = 0 := by
  intro bare filed
  have hargs : ({ subcommand := .check, code := ["é+", "]+"] } : Command).Carries bare "é+]+" :=
    .arguments rfl rfl (by decide) (by decide)
  have hfile : ({ subcommand := .run, options := { debug := true, file := some "a" } } :
      Command).Carries filed "é+]+" :=
    .file rfl rfl rfl rfl
  have hloops (s : Subcommand) :
      ({ subcommand := s, code := ["[a[-]", "+]"] } : Command).Carries bare "[a[-]+]" :=
    .arguments rfl rfl (List.cons_ne_nil _ _) (by simp)
  obtain ⟨-, -, hrefused⟩ := check_judges_like_strict_run "bf" hargs hfile rfl
  obtain ⟨haccepted, -, -⟩ := check_judges_like_strict_run "bf" (hloops .check) (hloops .run) rfl
  exact ⟨(hrefused (.unmatched 1 .closing) rfl).2.2, haccepted.mpr ⟨_, rfl⟩⟩

end Brainfuck.Cli
