/-
  Running: a command that runs a program says what the program itself comes to.

  1. The call.  A launch on the standard streams and the call it stands for differ in where their
     bytes go and in whether anybody could cancel them.  Neither is noticed by the program, so after
     any number of turns both are still going, or both have ended with the same result and the same
     bytes (`Launch.outcome_eq_called`).
  2. The report.  Whoever waits for a launch without being disturbed reports its result and no other
     (`Launch.reports_of_run`), so the report is determined by the call (`Launch.agrees`).
  3. The command.  Before the launch there are the mistakes, each with its exit status, and the
     first of them that is found is all that is reported.
-/
import Brainfuck.Proofs.Checking
import Brainfuck.Proofs.Waiting

namespace Brainfuck.Cli

/-! ## The call that a launch stands for -/

/-- How some code ends when it is called directly, and the bytes that it has emitted: a real run
    with a collector for its output, or a rehearsal, which prints a table.  There is no answer if
    `turns` turns are not enough. -/
def called (code : Code) (debug : Bool) (bounds : Bounds) (stdin : List UInt8) (turns : Nat) :
    Option (Except Fault Unit × List UInt8) :=
  if debug then
    (({ code, console := { stdin } } : Session).call turns (.rehearse bounds)).map
      fun (result, next) => (result, next.console.stdout.bytes.toList)
  else
    (({ code, console := { stdin, collecting := true } } : Session).call turns (.run bounds)).map
      fun (result, next) => (result, next.console.collected.toList)

/-- How something has ended on standard output, and what it has printed. -/
def printed (o : Outcome Word Console) : Except Fault Unit × List UInt8 :=
  (o.result, o.world.stdout.bytes.toList)

variable {l : Launch} {console : Console} {stdin : List UInt8} {bounds : Bounds} {turns : Nat}
  {result : Except Fault Unit} {last : Run Word Console}

namespace Launch

/-- Where nobody cancels it does not matter whether anybody could. -/
theorem canceled_eq (l : Launch) (bounds : Bounds) (h : console.canceled = false) :
    l.control.canceled console = bounds.control.canceled console := by
  show (true && console.canceled) = (bounds.cancelable && console.canceled)
  rw [h, Bool.and_false, Bool.and_false]

theorem outcome_eq_called_of_debug (h : l.debug = true) (hlimit : l.settings.maxSteps = bounds.limit)
    (stdin : List UInt8) (turns : Nat) :
    (l.run turns (l.start { stdin })).outcome?.map printed
      = called l.code true bounds stdin turns := by
  have hengine : l.engine = Session.printing l.code := by
    rw [engine, if_pos h]
  have hstart : l.start { stdin } = Run.start State.initial (Console.print Row.header { stdin }) := by
    rw [start, if_pos h]
  have hcontrol : l.engine.run l.control turns (l.start { stdin })
      = l.engine.run bounds.control turns (l.start { stdin }) := by
    refine l.keeps_standard.run_eq hlimit ?_ (l.standard_start ⟨stdin, {}, rfl⟩) turns
    rintro _ ⟨_, _, rfl⟩
    exact l.canceled_eq bounds rfl
  rw [run, hcontrol, hengine, hstart]
  show _ = (Session.ended _ _).map _
  rw [Session.ended, Option.map_map]
  rfl

theorem outcome_eq_called_of_real (h : l.debug = false) (hlimit : l.settings.maxSteps = bounds.limit)
    (stdin : List UInt8) (turns : Nat) :
    (l.run turns (l.start { stdin })).outcome?.map printed
      = called l.code false bounds stdin turns := by
  have hengine : l.engine = Engine.real Console.host l.code := by
    rw [engine, h]
    rfl
  have hstart : l.start { stdin } = Run.start State.initial { stdin } := by
    rw [start, h]
    rfl
  have hinstep : Engine.InStep (Engine.real Console.host l.code : Engine Word Console) l.control
      (Engine.real Console.host l.code) bounds.control fun s c t d => s = t ∧ c.Mirrors d := by
    refine Console.alike_mirrors.inStep l.code hlimit ?_
    rintro _ _ ⟨_, _⟩
    exact l.canceled_eq bounds rfl
  have hmirrors : Console.Mirrors { stdin } { stdin, collecting := true } := .intro rfl rfl
  have halike := hinstep.run ⟨Eq.refl State.initial, hmirrors⟩ turns 0
  rw [run, hengine, hstart]
  show _ = (Session.ended _ _).map _
  rw [Session.ended, Option.map_map, Run.start, Run.start]
  generalize Engine.run _ l.control turns _ = progress at halike ⊢
  generalize Engine.run _ _ turns _ = progress' at halike ⊢
  cases halike with
  | running _ => rfl
  | ended hrelated =>
    obtain ⟨-, ⟨-, hbytes⟩⟩ := hrelated
    exact congrArg (fun bytes => some (_, bytes)) hbytes

/-- **A launch comes to what its code comes to when it is called directly.** -/
theorem outcome_eq_called (hlimit : l.settings.maxSteps = bounds.limit) (stdin : List UInt8)
    (turns : Nat) :
    (l.run turns (l.start { stdin })).outcome?.map printed
      = called l.code l.debug bounds stdin turns := by
  cases h : l.debug with
  | true => exact outcome_eq_called_of_debug h hlimit stdin turns
  | false => exact outcome_eq_called_of_real h hlimit stdin turns

end Launch

/-! ## What is reported of it -/

/-- What is said of a call that has ended like this and has emitted these bytes: the bytes and a
    line feed, and a diagnostic over the text of the program if it has failed. -/
def answer (name text : String) (bytes : List UInt8) : Except Fault Unit → Report
  | .ok () => { exit := 0, stdout := bytes ++ [10], stderr := "" }
  | .error fault =>
    { exit := 1
      stdout := bytes ++ [10]
      stderr := (Diagnostic.ofFault (some name) text fault).render false }

theorem exit_answer_ne (name text : String) (bytes : List UInt8) (result : Except Fault Unit) :
    (answer name text bytes result).exit ≠ 130 := by
  rcases result with ⟨fault⟩ | ⟨⟨⟩⟩
  · show 1 ≠ 130
    decide
  · show 0 ≠ 130
    decide

namespace Launch

open Scene

/-- On this console, a launch that is not disturbed is reported like this. -/
structure Reports (l : Launch) (console : Console) (report : Report) : Prop where
  /-- No other report is given, whoever acts when, -/
  only : ∀ s verdict, Reachable l (opening l console) s → s.Undisturbed →
    s.verdict = some verdict →
    l.report verdict s.work.point.world.stdout.bytes.toList = report
  /-- it does come, -/
  settles : Settles l (opening l console)
  /-- and some number of turns is enough for it. -/
  concludes : ∃ enough, ∀ turns, enough ≤ turns → l.conclude turns console = report

theorem report_finished (h : result ≠ .error .canceled) (bytes : List UInt8) :
    l.report (.finished result) bytes = answer l.name l.code.source bytes result := by
  rcases result with ⟨fault⟩ | ⟨⟨⟩⟩
  · cases fault with
    | canceled => exact absurd rfl h
    | _ => rfl
  · rfl

/-- **A launch that ends is reported as it has ended.** -/
theorem reports_of_run (hconsole : console.Standard)
    (h : l.run turns (l.start console) = .ended result last) :
    l.Reports console
      (answer l.name l.code.source last.world.stdout.bytes.toList result) where
  only := by
    intro s verdict hs hundisturbed hverdict
    have hleft := hs.left hconsole hundisturbed
    obtain ⟨result', run, rfl, hended⟩ := hleft.verdict verdict hverdict
    obtain ⟨n, hwork⟩ := hleft.work
    -- The work has come to the one end that there is.
    have hlater : l.run (max n turns) (l.start console) = .ended result' run :=
      Engine.run_of_ended (hwork.symm.trans hended) (Nat.le_max_left n turns)
    have hlater' : l.run (max n turns) (l.start console) = .ended result last :=
      Engine.run_of_ended h (Nat.le_max_right n turns)
    obtain ⟨rfl, rfl⟩ := Progress.ended.inj (hlater.symm.trans hlater')
    rw [hended]
    exact report_finished (ne_canceled hconsole h) _
  settles := (left_opening l console).settles hconsole ⟨rfl, rfl⟩ h
  concludes := by
    refine ⟨turns, ?_⟩
    intro more hmore
    have hended : l.run more (l.start console) = _ := Engine.run_of_ended h hmore
    rw [conclude, hended]
    exact report_finished (ne_canceled hconsole h) _

/-- The report of an undisturbed launch is that of a call, given by how it has ended after some
    number of turns, if it has. -/
structure Agrees (l : Launch) (name text : String) (stdin : List UInt8)
    (call : Nat → Option (Except Fault Unit × List UInt8)) : Prop where
  /-- If the call ends, the launch is reported as the call has ended, -/
  ended : ∀ turns result bytes, call turns = some (result, bytes) →
    l.Reports { stdin } (answer name text bytes result)
  /-- otherwise it is not reported at all, -/
  endless : ∀ s verdict, Reachable l (opening l { stdin }) s → s.Undisturbed →
    s.verdict = some verdict → ∃ turns result bytes, call turns = some (result, bytes)
  /-- and in no case as interrupted. -/
  exit_ne : ∀ s verdict, Reachable l (opening l { stdin }) s → s.Undisturbed →
    s.verdict = some verdict →
    (l.report verdict s.work.point.world.stdout.bytes.toList).exit ≠ 130

/-- **An undisturbed launch is reported as the call it stands for has ended.** -/
theorem agrees (hlimit : l.settings.maxSteps = bounds.limit) (stdin : List UInt8) :
    l.Agrees l.name l.code.source stdin (called l.code l.debug bounds stdin) := by
  have hstandard : Console.Standard { stdin } := ⟨stdin, {}, rfl⟩
  have hended (turns : Nat) (result : Except Fault Unit) (bytes : List UInt8)
      (h : called l.code l.debug bounds stdin turns = some (result, bytes)) :
      l.Reports { stdin } (answer l.name l.code.source bytes result) := by
    rw [← outcome_eq_called hlimit] at h
    cases hrun : l.run turns (l.start { stdin }) with
    | running run =>
      rw [hrun] at h
      nomatch h
    | ended result' last =>
      rw [hrun] at h
      obtain ⟨rfl, rfl⟩ := Prod.mk.inj (Option.some.inj h)
      exact reports_of_run hstandard hrun
  have hcalled (s : Scene) (verdict : Verdict) (hs : Reachable l (opening l { stdin }) s)
      (hundisturbed : s.Undisturbed) (hverdict : s.verdict = some verdict) :
      ∃ turns result bytes, called l.code l.debug bounds stdin turns = some (result, bytes) := by
    have hleft := hs.left hstandard hundisturbed
    obtain ⟨result, run, -, hended⟩ := hleft.verdict verdict hverdict
    obtain ⟨turns, hwork⟩ := hleft.work
    refine ⟨turns, result, run.world.stdout.bytes.toList, ?_⟩
    rw [← outcome_eq_called hlimit, ← hwork, hended]
    rfl
  refine ⟨hended, hcalled, ?_⟩
  intro s verdict hs hundisturbed hverdict
  obtain ⟨turns, result, bytes, h⟩ := hcalled s verdict hs hundisturbed hverdict
  rw [(hended turns result bytes h).only s verdict hs hundisturbed hverdict]
  exact exit_answer_ne _ _ _ _

end Launch

/-! ## The command -/

section Command

variable {c : Command} {name text : String} {w : World}

/-- Two sources of code are one too many, and none is one too few. -/
theorem Command.launch_of_sources (name : String) (hhelp : c.options.help = false)
    (h : c.options.file = none ∧ c.code = [] ∨ c.options.file ≠ none ∧ c.code ≠ []) :
    ∃ stderr, ∀ w, c.launch name w = .error { exit := 2, stdout := [], stderr } := by
  rcases h with ⟨hfile, hcode⟩ | ⟨hfile, hcode⟩
  · refine ⟨Usage.ofSubcommand name c.subcommand, ?_⟩
    intro w
    simp [Command.launch, Command.text, hhelp, hfile, hcode]
  · obtain ⟨path, hpath⟩ := Option.ne_none_iff_exists'.mp hfile
    obtain ⟨part, rest, hparts⟩ := List.exists_cons_of_ne_nil hcode
    refine ⟨name ++ ": cannot use positional code together with --file\n"
      ++ Usage.ofSubcommand name c.subcommand, ?_⟩
    intro w
    simp [Command.launch, Command.text, hhelp, hpath, hparts]

theorem Command.launch_of_unreadable {path : String} (name : String)
    (hhelp : c.options.help = false) (hfile : c.options.file = some path) (hcode : c.code = [])
    (hunreadable : ∀ text, w.readText (Path.ofText path) ≠ .ok text) :
    ∃ stderr, c.launch name w = .error { exit := 1, stdout := [], stderr } := by
  cases hread : w.readText (Path.ofText path) with
  | ok text => exact absurd hread (hunreadable text)
  | error e =>
    refine ⟨name ++ ": failed to read code file as UTF-8: " ++ e.message ++ "\n", ?_⟩
    simp [Command.launch, Command.text, hhelp, hfile, hcode, hread]

/-- A program that may run is launched with the settings that apply. -/
theorem Command.launch_of_accepted (name : String) (h : c.Carries w text)
    (haccepted : (Settings.resolve c.flags w).strictBrackets = true →
      ∃ code, Code.load text = .ok code) :
    c.launch name w = .ok
      { name, code := .ofText text, debug := c.options.debug, settings := .resolve c.flags w } := by
  rw [launch_eq h]
  split
  · next hstrict =>
    obtain ⟨code, hload⟩ := haccepted hstrict
    obtain rfl := Code.eq_ofText_of_load hload
    rw [hload]
  · rfl

end Command

/-- **`run` says what the program comes to.**

    Help is given, and a command line without code or with code from two places is refused, before
    anything is looked at in the world.  A file without text to offer and a program that is refused
    under the settings that apply are failures, and nothing is printed.

    In all other cases there is a launch, and its report, if nothing disturbs it, is that of the
    code called directly under the limit that applies: the bytes that the code has emitted and a
    line feed, and success without a word or a failure with its diagnostic. -/
theorem run_agrees_with_library (c : Command) (name : String) (stdin : List UInt8) :
    (c.options.help = true → ∀ w, c.launch name w
        = .error { exit := 0, stdout := [], stderr := Usage.ofSubcommand name c.subcommand })
      ∧ (c.options.help = false →
        (c.options.file = none ∧ c.code = [] ∨ c.options.file ≠ none ∧ c.code ≠ []) →
        ∃ stderr, ∀ w, c.launch name w = .error { exit := 2, stdout := [], stderr })
      ∧ ∀ w,
        (∀ path, c.options.help = false → c.options.file = some path → c.code = [] →
          (∀ text, w.readText (Path.ofText path) ≠ .ok text) →
          ∃ stderr, c.launch name w = .error { exit := 1, stdout := [], stderr })
        ∧ ∀ text, c.Carries w text →
          (∀ fault, (Settings.resolve c.flags w).strictBrackets = true →
            Code.load text = .error fault →
            ∃ stderr, c.launch name w = .error { exit := 1, stdout := [], stderr })
          ∧ (((Settings.resolve c.flags w).strictBrackets = true →
              ∃ code, Code.load text = .ok code) →
            ∃ l, c.launch name w = .ok l
              ∧ ∀ bounds : Bounds, (Settings.resolve c.flags w).maxSteps = bounds.limit →
                l.Agrees name (stripComments text) stdin
                  (called (Code.ofText text) c.options.debug bounds stdin)) := by
  refine ⟨?_, Command.launch_of_sources name, ?_⟩
  · intro hhelp w
    rw [Command.launch, Command.text, if_pos hhelp]
  · intro w
    refine ⟨fun path => Command.launch_of_unreadable name, ?_⟩
    intro text hcarries
    constructor
    · intro fault hstrict hload
      rw [Command.launch_eq hcarries, if_pos hstrict, hload]
      exact ⟨_, rfl⟩
    · intro haccepted
      refine ⟨_, Command.launch_of_accepted name hcarries haccepted, ?_⟩
      intro bounds hlimit
      rw [← Code.source_ofText]
      exact Launch.agrees hlimit stdin

set_option maxRecDepth 4000 in
/-- A program that echoes a line and then moves left of its first cell: the byte is printed, and so
    is what went wrong. -/
theorem failing_echo_is_reported :
    let bare : World := { env := fun _ => none, file := fun _ => .error .notFound }
    ∃ l, ({ subcommand := .run, code := ["echo ,.", "<"] } : Command).launch "bf" bare = .ok l
      ∧ l.Reports { stdin := [97, 10] }
        { exit := 1
          stdout := [97, 10]
          stderr := "bf: Runtime error: tape underflow (cannot move left of cell 0)"
            ++ " at instruction 2\n  ,.<\n    ^\n" } := by
  intro bare
  have hcarries : ({ subcommand := .run, code := ["echo ,.", "<"] } : Command).Carries bare
      "echo ,.<" :=
    .arguments rfl rfl (by decide) (by decide)
  obtain ⟨-, -, hworld⟩ := run_agrees_with_library
    { subcommand := .run, code := ["echo ,.", "<"] } "bf" [97, 10]
  obtain ⟨-, hlaunch⟩ := (hworld bare).2 "echo ,.<" hcarries
  obtain ⟨l, hl, hagrees⟩ := hlaunch fun _ => ⟨_, rfl⟩
  have hcalled : called (Code.ofText "echo ,.<") false {} [97, 10] 5
      = some (.error (.underflow 2), [97]) := rfl
  exact ⟨l, hl, (hagrees {} rfl).ended 5 _ _ hcalled⟩

end Brainfuck.Cli
