/-
  Comments: only the instructions of a text matter, and not how the text was delivered.

  A text is stripped character by character and read instruction by instruction, by two functions
  that know nothing of each other.  They come down to the same thing: the stripped text is the
  program written out, and a program that is written out reads back.  So two texts have the same
  STRIPPED form exactly if they have the same PROGRAM (`ofText_eq_iff`), and everything that is made
  of a text is made of one of the two:

  * code is loaded from the program, and what is refused is refused by its brackets;
  * diagnostics and the answer of `check` are written over the stripped text.

  A command may have its code from a file or from its arguments, in any number of parts.  What else
  it depends on is the settings that apply, and these come from the flags, the environment and one
  document (`Settings.resolve_eq`).
-/
import Brainfuck.Proofs.Running

namespace Brainfuck

/-! ## Texts -/

variable {a b : String}

theorem stripComments_append (a b : String) :
    stripComments (a ++ b) = stripComments a ++ stripComments b := by
  rw [stripComments, String.toList_append, List.filter_append, String.ofList_append]
  rfl

/-- Nothing is read from comments. -/
theorem Program.ofText_stripComments (text : String) :
    Program.ofText (stripComments text) = Program.ofText text := by
  rw [← Program.toText_ofText, Program.ofText_toText]

theorem stripComments_stripComments (text : String) :
    stripComments (stripComments text) = stripComments text := by
  -- Through the program: what is stripped off once is nothing that could be read.
  rw [← Program.toText_ofText (stripComments text), Program.ofText_stripComments,
    Program.toText_ofText]

/-- **Texts have the same instructions exactly if they are the same without their comments.** -/
theorem Program.ofText_eq_iff :
    Program.ofText a = Program.ofText b ↔ stripComments a = stripComments b := by
  constructor
  · intro h
    rw [← Program.toText_ofText, h, Program.toText_ofText]
  · intro h
    rw [← Program.ofText_stripComments a, h, Program.ofText_stripComments]

/-! ## Code -/

namespace Code

theorem ofText_eq (h : stripComments a = stripComments b) : ofText a = ofText b := by
  rw [ofText, Program.ofText_eq_iff.mpr h]
  rfl

/-- Strict loading accepts the same code or blames the same bracket. -/
theorem load_eq_load (h : stripComments a = stripComments b) : load a = load b := by
  rw [load, load, ofText_eq h]

end Code

/-! ## Settings -/

/-- Two worlds that offer the same settings: they have the same environment, and the same document
    where it says that there is one.  All other files may differ. -/
structure World.SameSettings (w w' : World) : Prop where
  env : w.env = w'.env
  document : ∀ path, w.settingsPath? = some path → w.file path = w'.file path

theorem World.settings_eq {w w' : World} (h : w.SameSettings w') : w.settings = w'.settings := by
  -- Where the document is depends on the environment alone.
  have hpath : w'.settingsPath? = w.settingsPath? := by
    simp only [settingsPath?, configDirectory?, envText?, h.env]
  rw [settings, settings, hpath]
  cases hdocument : w.settingsPath? with
  | none => rfl
  | some path => simp only [readText, h.document path hdocument]

theorem Settings.resolve_eq {w w' : World} (h : w.SameSettings w') (flags : Flags) :
    resolve flags w = resolve flags w' := by
  simp only [resolve, World.envNumber?, World.envText?, h.env, World.settings_eq h]

/-! ## Commands -/

namespace Cli

/-- On this input a command is reported like this: at once, or as a launch that nothing disturbs. -/
inductive Command.Answers (c : Command) (name : String) (w : World) (stdin : List UInt8)
    (report : Report) : Prop
  | refused (h : c.launch name w = .error report)
  | launched {l : Launch} (h : c.launch name w = .ok l) (hreports : l.Reports { stdin } report)

namespace Command

variable {c c' : Command} {w w' : World}

/-- A command that is asked for help looks at no code. -/
theorem text_of_help (h : c.options.help = true) (name : String) (w : World) :
    c.text name w = .error { exit := 0, stderr := Usage.ofSubcommand name c.subcommand } := by
  rw [text, if_pos h]

/-- What is said of a text that is accepted is said of its instructions. -/
theorem checked_eq_checked (h : stripComments a = stripComments b) (loops : Loops) :
    checked a loops = checked b loops := by
  rw [checked_eq, checked_eq, h]

theorem check_eq_check (h : stripComments a = stripComments b) (name : String)
    (hc : c.Carries w a) (hc' : c'.Carries w' b) : c.check name w = c'.check name w' := by
  rw [check_eq hc, check_eq hc', Code.load_eq_load h]
  cases Code.load b with
  | ok code =>
    show ({ exit := 0, stdout := Utf8.encode (checked a code.loops) } : Report) = _
    rw [checked_eq_checked h]
  | error fault =>
    show Report.fault name (stripComments a) fault = _
    rw [h]

/-- **Commands about the same instructions under the same settings launch the same.** -/
theorem launch_eq_launch (h : stripComments a = stripComments b) (name : String)
    (hw : w.SameSettings w') (hc : c.Carries w a) (hc' : c'.Carries w' b)
    (hflags : c.flags = c'.flags) (hdebug : c.options.debug = c'.options.debug) :
    c.launch name w = c'.launch name w' := by
  rw [launch_eq hc, launch_eq hc', hflags, hdebug, Settings.resolve_eq hw, Code.load_eq_load h,
    Code.ofText_eq h, h]

end Command

/-- **Comments and the way in which code is delivered are irrelevant.**

    Stripping a text can be done part by part, and once is enough.  What is left has the same
    instructions, is the program written out, and is the source of all code loaded from the text for
    as long as it lives.

    So texts that are the same without their comments load the same code or are refused alike, live
    the same lives, and are the same to both commands, wherever these have them from: from a file,
    or from arguments that are parts of it.  And where help is asked for, it is given whatever the
    code is. -/
theorem comments_are_irrelevant {α : Type} [Cell α] (a b : String) :
    stripComments (a ++ b) = stripComments a ++ stripComments b
    ∧ stripComments (stripComments a) = stripComments a
    ∧ Program.ofText (stripComments a) = Program.ofText a
    ∧ (Program.ofText a).toText = stripComments a
    ∧ (∀ code, Code.load a = .ok code ∨ Code.ofText a = code →
      ∀ (console : Console) (events : List Event) (passed : List (State α)) (s : Session α),
        ({ code, console } : Session α).Lives events passed s → s.code.source = stripComments a)
    ∧ (stripComments a = stripComments b →
      Code.load a = Code.load b ∧ Code.ofText a = Code.ofText b
      ∧ (∀ (console : Console) (events : List Event) (passed : List (State α)) (s : Session α),
        ({ code := Code.ofText a, console } : Session α).Lives events passed s
          ↔ ({ code := Code.ofText b, console } : Session α).Lives events passed s)
      ∧ ∀ (name : String) (w w' : World), w.SameSettings w' →
        ∀ c c' : Command, c.Carries w a → c'.Carries w' b →
          c.check name w = c'.check name w'
          ∧ (c.flags = c'.flags → c.options.debug = c'.options.debug →
            c.launch name w = c'.launch name w'
            ∧ ∀ stdin report, c.Answers name w stdin report ↔ c'.Answers name w' stdin report))
    ∧ ∀ (name : String) (w w' : World) (c c' : Command), c.options.help = true →
      c'.options.help = true → c.subcommand = c'.subcommand →
      c.check name w = c'.check name w' ∧ c.launch name w = c'.launch name w' := by
  refine ⟨stripComments_append a b, stripComments_stripComments a, Program.ofText_stripComments a,
    Program.toText_ofText a, ?_, ?_, ?_⟩
  · intro code hcode console events passed s hlives
    rw [hlives.code_eq]
    show code.source = _
    rw [Code.eq_ofText hcode, Code.source_ofText]
  · intro h
    refine ⟨Code.load_eq_load h, Code.ofText_eq h, ?_, ?_⟩
    · intro console events passed s
      rw [Code.ofText_eq h]
    · intro name w w' hw c c' hc hc'
      refine ⟨Command.check_eq_check h name hc hc', ?_⟩
      intro hflags hdebug
      have hlaunch := Command.launch_eq_launch h name hw hc hc' hflags hdebug
      refine ⟨hlaunch, ?_⟩
      intro stdin report
      constructor
      · rintro (hrefused | ⟨hlaunched, hreports⟩)
        · exact .refused (hlaunch.symm.trans hrefused)
        · exact .launched (hlaunch.symm.trans hlaunched) hreports
      · rintro (hrefused | ⟨hlaunched, hreports⟩)
        · exact .refused (hlaunch.trans hrefused)
        · exact .launched (hlaunch.trans hlaunched) hreports
  · intro name w w' c c' hhelp hhelp' hsubcommand
    simp only [Command.check, Command.launch, Command.text_of_help hhelp,
      Command.text_of_help hhelp', hsubcommand, and_self]

/-- A loop with a comment in a file, and the same loop in two arguments, with a bracket in each. -/
theorem commented_file_and_two_arguments :
    let bare : World := { env := fun _ => none, file := fun _ => .error .notFound }
    let filed : World :=
      { bare with file := fun _ => .ok [0x2B, 0x5B, 0xC3, 0xA9, 0x2D, 0x5D] }
    ({ subcommand := .check, options := { file := some "a" } } : Command).check "bf" filed
        = ({ subcommand := .check, code := ["+[", "-]"] } : Command).check "bf" bare
      ∧ ({ subcommand := .run, options := { file := some "a", lenient := true } } : Command).launch
          "bf" filed
        = ({ subcommand := .run, code := ["+[", "-]"], options := { lenient := true } } :
          Command).launch "bf" bare := by
  intro bare filed
  have hw : filed.SameSettings bare := ⟨rfl, fun _ h => nomatch h⟩
  have hfile (s : Subcommand) (lenient : Bool) :
      ({ subcommand := s, options := { file := some "a", lenient } } : Command).Carries filed
        "+[é-]" :=
    .file rfl rfl rfl rfl
  have harguments (s : Subcommand) (lenient : Bool) :
      ({ subcommand := s, code := ["+[", "-]"], options := { lenient } } : Command).Carries bare
        "+[-]" :=
    .arguments rfl rfl (List.cons_ne_nil _ _) (by simp)
  obtain ⟨-, -, -, -, -, hsame, -⟩ := comments_are_irrelevant (α := Word) "+[é-]" "+[-]"
  obtain ⟨-, -, -, hcommands⟩ := hsame rfl
  obtain ⟨hcheck, -⟩ :=
    hcommands "bf" filed bare hw _ _ (hfile .check false) (harguments .check false)
  obtain ⟨-, hrun⟩ := hcommands "bf" filed bare hw _ _ (hfile .run true) (harguments .run true)
  exact ⟨hcheck, (hrun rfl rfl).1⟩

end Cli

end Brainfuck
