/-
  Hooks: the standard streams serve a program as hooks would.

  1. Lines.  Standard input is a row of bytes, and `,` takes the next line of it.  `Line.cut` cuts
     all of it into lines beforehand; a script that holds what each of them reads as
     (`Line.answers`) gives the same answers one by one, at the end of the input too
     (`Line.read_eq`).
  2. Calls.  Two hosts that answer alike lead to the same results, call after call
     (`Host.Alike.returnsAll`), whatever the calls are, as long as their flags are fixed in advance.
  3. Counting.  A script is asked once for every `,` that is attempted, whether it succeeds or not
     (`asked_iterate`); and a line is gone from standard input whenever the script was asked.

  There is one thing that a run does on the standard streams only: it flushes them when the program
  has ended.  On a device that works this moves bytes, and cannot be seen in `Stdout.bytes`.
-/
import Brainfuck.Proofs.Blame
import Brainfuck.Proofs.Calls
import Brainfuck.Proofs.Streams

namespace Brainfuck

/-! ## Lines -/

namespace Line

/-- Bytes cut into lines.  Each has its line feed, but for the last, which may have none. -/
def cut : List UInt8 → List (List UInt8)
  | [] => []
  | byte :: rest =>
    if byte = 10 then [byte] :: cut rest
    else
      match cut rest with
      | [] => [[byte]]
      | line :: lines => (byte :: line) :: lines

/-- What a line reads as. -/
def answer (line : List UInt8) : Answer :=
  match Utf8.decode? line with
  | some text => .line text
  | none => .failure Utf8.illFormed

/-- What the lines of some bytes read as, one by one. -/
def answers (bytes : List UInt8) : List Answer := (cut bytes).map answer

/-- Nothing is lost by cutting. -/
theorem flatten_cut (bytes : List UInt8) : (cut bytes).flatten = bytes := by
  induction bytes with
  | nil => rfl
  | cons byte rest ih =>
    rw [cut]
    split
    · rw [List.flatten_cons, ih]
      rfl
    · split
      · next hrest =>
        rw [hrest] at ih
        rw [← ih]
        rfl
      · next line lines hrest =>
        rw [hrest] at ih
        rw [← ih]
        rfl

theorem take_feed (rest : List UInt8) : take (10 :: rest) = ([10], rest) := rfl

theorem take_cons {byte : UInt8} (h : byte ≠ 10) (rest : List UInt8) :
    take (byte :: rest) = (byte :: (take rest).1, (take rest).2) := by
  have htake : (byte :: rest).takeWhile (· ≠ 10) = byte :: rest.takeWhile (· ≠ 10) :=
    List.takeWhile_cons_of_pos (by simpa using h)
  have hdrop : (byte :: rest).dropWhile (· ≠ 10) = rest.dropWhile (· ≠ 10) :=
    List.dropWhile_cons_of_pos (by simpa using h)
  rw [take, take, htake, hdrop]
  -- Whether there is a line feed further on is not decided by this byte.
  cases rest.dropWhile (· ≠ 10) with
  | nil => rfl
  | cons feed rest => rfl

/-- **The first line that is cut is the one that is taken**, and the others are cut from what is
    left. -/
theorem cut_cons (byte : UInt8) (rest : List UInt8) :
    cut (byte :: rest) = (take (byte :: rest)).1 :: cut (take (byte :: rest)).2 := by
  induction rest generalizing byte with
  | nil =>
    rw [cut]
    split
    · next hfeed =>
      rw [hfeed, take_feed]
    · next hfeed =>
      rw [take_cons hfeed]
      rfl
  | cons next rest ih =>
    rw [cut]
    split
    · next hfeed =>
      rw [hfeed, take_feed]
    · next hfeed =>
      rw [take_cons hfeed, ih]

/-- Taking a line leaves all lines but the first. -/
theorem cut_take (bytes : List UInt8) : cut (take bytes).2 = (cut bytes).tail := by
  cases bytes with
  | nil => rfl
  | cons byte rest => rw [cut_cons, List.tail_cons]

/-- There is a byte in a line. -/
theorem take_ne_nil (byte : UInt8) (rest : List UInt8) : (take (byte :: rest)).1 ≠ [] := by
  by_cases hfeed : byte = 10
  · rw [hfeed, take_feed]
    exact List.cons_ne_nil _ _
  · rw [take_cons hfeed]
    exact List.cons_ne_nil _ _

/-- **To ask bytes for a line is to ask a script of their lines.** -/
theorem read_eq (bytes : List UInt8) :
    read bytes = (((answers bytes).headD .endOfInput).toExcept, (take bytes).2) := by
  cases bytes with
  | nil => rfl
  | cons byte rest =>
    have hanswers : answers (byte :: rest)
        = answer (take (byte :: rest)).1 :: answers (take (byte :: rest)).2 := by
      rw [answers, cut_cons, List.map_cons, ← answers]
    rw [hanswers, List.headD_cons, read]
    rcases htake : take (byte :: rest) with ⟨line, left⟩
    have hline := take_ne_nil byte rest
    rw [htake] at hline
    obtain ⟨first, more, rfl⟩ := List.exists_cons_of_ne_nil hline
    simp only [answer]
    cases Utf8.decode? (first :: more) with
    | some text => rfl
    | none => rfl

theorem answers_take (bytes : List UInt8) : answers (take bytes).2 = (answers bytes).tail := by
  rw [answers, answers, cut_take, List.map_tail]

end Line

/-! ## Streams and the hooks that stand for them -/

namespace Console

/-- Hooks that stand for a standard input: a script of its lines, and a collector. -/
def hooks (stdin : List UInt8) : Console :=
  { script := some (Line.answers stdin), collecting := true }

/-- Standard streams beside hooks: since there were these bytes to be read and those had been
    written, the script has been asked for each line that is gone, and what was written since is
    what was collected. -/
inductive Serves (stdin written : List UInt8) : Console → Console → Prop
  | intro {rest : List UInt8} {stdout : Stdout} {collected : Array UInt8} {asked : Nat}
      (works : stdout.full = false)
      (bytes_eq : stdout.bytes.toList = written ++ collected.toList)
      (cut_eq : Line.cut rest = (Line.cut stdin).drop asked) :
      Serves stdin written { stdin := rest, stdout }
        { script := some (Line.answers rest), collecting := true, collected, asked }

theorem serves_hooks (stdin : List UInt8) {stdout : Stdout} (works : stdout.full = false) :
    Serves stdin stdout.bytes.toList { stdin, stdout } (hooks stdin) :=
  .intro works (List.append_nil _).symm rfl

/-- **The standard streams answer as these hooks do.** -/
theorem alike_serves (stdin written : List UInt8) :
    Console.host.Alike Console.host (Serves stdin written) where
  write := by
    rintro _ _ (@⟨rest, stdout, collected, asked, works, bytes_eq, cut_eq⟩) byte
    obtain ⟨stdout', hwrite, hgains⟩ := Stdout.write_of_working works byte
    refine ⟨.ok (), _, _, ?_, rfl, .intro hgains.full ?_ cut_eq⟩
    · exact write_eq { stdin := rest, stdout } rfl hwrite
    · rw [hgains.bytes_eq, bytes_eq, Array.toList_push, List.append_assoc]
  readLine := by
    rintro _ _ (@⟨rest, stdout, collected, asked, works, bytes_eq, cut_eq⟩)
    have hcut : Line.cut (Line.take rest).2 = (Line.cut stdin).drop (asked + 1) := by
      rw [Line.cut_take, cut_eq, List.tail_drop]
    refine ⟨((Line.answers rest).headD .endOfInput).toExcept,
      { stdin := (Line.take rest).2, stdout }, _, ?_, ?_, .intro works bytes_eq hcut⟩
    · show ((Line.read rest).1, ({ stdin := (Line.read rest).2, stdout } : Console)) = _
      rw [Line.read_eq]
    · rw [Line.answers_take]
      rfl
  flush := by
    rintro _ _ (@⟨rest, stdout, collected, asked, works, bytes_eq, cut_eq⟩)
    obtain ⟨stdout', hflush, hgains⟩ := Stdout.flush_of_working works
    refine ⟨.ok (), _, _, ?_, rfl, .intro hgains.full ?_ cut_eq⟩
    · exact flush_eq { stdin := rest, stdout } rfl hflush
    · rw [hgains.bytes_eq, bytes_eq, List.append_nil]

end Console

/-! ## Calls -/

/-- A call that executes instructions for real, whose flag is fixed in advance. -/
inductive FixedCall
  | step
  | run (limit : Option Nat) (canceled : Bool)

/-- The call in any world; the world has no say in it. -/
def FixedCall.on (σ : Type) : FixedCall → RealCall σ
  | .step => .step
  | .run limit canceled => .run { limit, canceled := fun _ => canceled }

section Calls

variable {α : Type} [Cell α] {σ τ : Type} {host : Host σ} {host' : Host τ} {R : σ → τ → Prop}
  {code : Code} {s t : State α} {w v : σ} {w' : τ} {k : Nat}

/-- One call. -/
theorem Host.Alike.returns (h : host.Alike host' R) (hR : R w w') {call : FixedCall}
    {result : Except Fault Unit} (hcall : Returns host code (call.on σ) (s, w) result k (t, v)) :
    ∃ v', Returns host' code (call.on τ) (s, w') result k (t, v') ∧ R v v' := by
  cases call with
  | step =>
    cases hcall with
    | step hattempt =>
      obtain ⟨result', t', u, u', hleft, hright, hR'⟩ := h.attempt hR code s
      obtain ⟨rfl, rfl, rfl⟩ := Outcome.mk.inj (hleft.symm.trans hattempt)
      exact ⟨u', .step hright, hR'⟩
  | run limit canceled =>
    cases hcall with
    | @run _ turns _ _ _ last hrun =>
      have hinstep : Engine.InStep (Engine.real host code : Engine α σ)
          { limit, canceled := fun _ => canceled } (Engine.real host' code)
          { limit, canceled := fun _ => canceled } _ :=
        h.inStep code rfl fun _ _ _ => rfl
      have halike := hinstep.run ⟨Eq.refl s, hR⟩ turns 0
      rw [Run.start] at hrun
      rw [hrun] at halike
      generalize hrun' : Engine.run _ _ turns { state := s, world := w', steps := 0 } = progress
        at halike
      cases halike with
      | ended hrelated =>
        obtain ⟨rfl, hR'⟩ := hrelated
        exact ⟨_, .run hrun', hR'⟩

/-- **Hosts that answer alike give the same results**, call after call. -/
theorem Host.Alike.returnsAll (h : host.Alike host' R) {calls : List FixedCall}
    {results : List (Except Fault Unit)} (hR : R w w')
    (hcalls : ReturnsAll host code (calls.map (FixedCall.on σ)) (s, w) results k (t, v)) :
    ∃ v', ReturnsAll host' code (calls.map (FixedCall.on τ)) (s, w') results k (t, v')
      ∧ R v v' := by
  induction calls generalizing s w w' results k with
  | nil =>
    cases hcalls with
    | nil => exact ⟨w', .nil, hR⟩
  | cons call calls ih =>
    cases hcalls with
    | @cons _ _ _ m' _ _ _ _ _ hcall hrest =>
      obtain ⟨s', u⟩ := m'
      obtain ⟨u', hcall', hR'⟩ := h.returns hR hcall
      obtain ⟨v', hrest', hlast⟩ := ih hR' hrest
      exact ⟨v', .cons hcall' hrest', hlast⟩

/-! ## Counting -/

/-- How many of the next `k` instructions are a `,`, whether they succeed or not. -/
def inputs (host : Host σ) (code : Code) : Nat → State α × σ → Nat
  | 0, _ => 0
  | k + 1, m =>
    (if code.program[m.1.ip]? = some .input then 1 else 0)
      + inputs host code k (singleStep host code m)

/-- What becomes of the world when a byte is written does not depend on whether that worked, -/
theorem world_perform_emit (host : Host σ) (byte : UInt8) (here : State α) (w : σ) :
    ((Effect.emit byte here).perform host w).world = (host.write byte w).2 := by
  rw [Effect.perform]
  rcases host.write byte w with ⟨⟨reason⟩ | ⟨⟨⟩⟩, world⟩
  · rfl
  · rfl

/-- and no more does it when a line is read. -/
theorem world_perform_ask (host : Host σ) (here : State α) (w : σ) :
    ((Effect.ask here).perform host w).world = (host.readLine w).2 := by
  rw [Effect.perform]
  rcases host.readLine w with ⟨⟨reason⟩ | ⟨line⟩, world⟩
  · rfl
  · rfl

/-- Only `,` has to do with the script. -/
theorem script_perform (console : Console) {e : Effect α} {i : Instruction} (hfits : e.Fits i)
    (hi : i ≠ .input) :
    (e.perform Console.host console).world.script = console.script
      ∧ (e.perform Console.host console).world.asked = console.asked := by
  cases e with
  | done next => exact ⟨rfl, rfl⟩
  | emit byte here =>
    rw [world_perform_emit]
    show (console.write byte).2.script = _ ∧ (console.write byte).2.asked = _
    rw [Console.write]
    split
    · exact ⟨rfl, rfl⟩
    · exact ⟨rfl, rfl⟩
  | ask here => exact absurd hfits hi
  | fault cause here => exact ⟨rfl, rfl⟩

/-- **A single step asks a script for a line exactly if it is a `,`.** -/
theorem asked_singleStep {console : Console} (h : console.script.isSome = true) (code : Code)
    (s : State α) :
    (singleStep Console.host code (s, console)).2.script.isSome = true
      ∧ (singleStep Console.host code (s, console)).2.asked
        = console.asked + if code.program[s.ip]? = some .input then 1 else 0 := by
  rw [singleStep, attempt]
  cases hi : code.program[s.ip]? with
  | none => exact ⟨h, rfl⟩
  | some i =>
    by_cases hinput : i = .input
    · obtain rfl := hinput
      obtain ⟨answers, hanswers⟩ := Option.isSome_iff_exists.mp h
      show ((Effect.ask s).perform Console.host console).world.script.isSome = true
        ∧ ((Effect.ask s).perform Console.host console).world.asked = _
      rw [world_perform_ask]
      show (console.readLine).2.script.isSome = true ∧ (console.readLine).2.asked = _
      rw [Console.readLine, hanswers]
      exact ⟨rfl, rfl⟩
    · -- Nothing else touches the script, whatever comes of it.
      obtain ⟨hscript, hasked⟩ := script_perform console (effect_fits code s i) hinput
      rw [if_neg (by simpa using hinput)]
      show ((effect code s i).perform Console.host console).world.script.isSome = true
        ∧ ((effect code s i).perform Console.host console).world.asked = _
      rw [hscript, hasked]
      exact ⟨h, rfl⟩

theorem asked_iterate {console : Console} (h : console.script.isSome = true) (code : Code)
    (k : Nat) (s : State α) :
    ((singleStep Console.host code)^[k] (s, console)).2.asked
      = console.asked + inputs Console.host code k (s, console) := by
  induction k generalizing s console with
  | zero => rfl
  | succ k ih =>
    obtain ⟨hscript, hasked⟩ := asked_singleStep h code s
    rw [Function.iterate_succ_apply, ih hscript, hasked, inputs]
    exact Nat.add_assoc _ _ _

end Calls

/-! ## The whole -/

/-- What two consoles have in common after `asked` lines have been asked for, of which one had this
    standard input, and these bytes on its standard output, and the other had hooks: the bytes
    written since are those collected, and one line is gone for each that was asked for. -/
structure Console.Agree (stdin written : List UInt8) (asked : Nat) (plain hooked : Console) :
    Prop where
  bytes_eq : plain.stdout.bytes.toList = written ++ hooked.collected.toList
  asked_eq : hooked.asked = asked
  stdin_eq : plain.stdin = ((Line.cut stdin).drop asked).flatten

/-- Related consoles agree on all that was asked for. -/
theorem Console.Serves.agree {stdin written : List UInt8} {c d : Console}
    (h : Console.Serves stdin written c d) : c.Agree stdin written d.asked d := by
  cases h with
  | @intro rest stdout collected asked works bytes_eq cut_eq =>
    refine ⟨bytes_eq, rfl, ?_⟩
    rw [← cut_eq, Line.flatten_cut]

/-- **The standard streams serve a program as hooks would.**  Take any standard input, a standard
    output on a device that works, and hooks that stand for them.  Calls with flags that are fixed
    in advance come to the same results on both, attempt as many instructions and leave the machine
    in the same state; so this holds after each of them.  The bytes given to standard output, held
    or not, are those collected, in order; and every `,` that was attempted has used up one line. -/
theorem standard_streams_serve_like_hooks {α : Type} [Cell α] (code : Code) (s t : State α)
    (stdin : List UInt8) (stdout : Stdout) (works : stdout.full = false) (calls : List FixedCall)
    (results : List (Except Fault Unit)) (k : Nat) :
    (∀ plain, ReturnsAll Console.host code (calls.map (FixedCall.on Console))
        (s, { stdin, stdout }) results k (t, plain) →
      ∃ hooked, ReturnsAll Console.host code (calls.map (FixedCall.on Console))
          (s, Console.hooks stdin) results k (t, hooked)
        ∧ plain.Agree stdin stdout.bytes.toList
          (inputs Console.host code k (s, Console.hooks stdin)) hooked)
    ∧ ∀ hooked, ReturnsAll Console.host code (calls.map (FixedCall.on Console))
        (s, Console.hooks stdin) results k (t, hooked) →
      ∃ plain, ReturnsAll Console.host code (calls.map (FixedCall.on Console))
          (s, { stdin, stdout }) results k (t, plain)
        ∧ plain.Agree stdin stdout.bytes.toList
          (inputs Console.host code k (s, Console.hooks stdin)) hooked := by
  have hserves := Console.serves_hooks stdin works
  have halike := Console.alike_serves stdin stdout.bytes.toList
  -- The lines are counted on the side of the hooks, where calls are known to be single steps.
  have hasked (hooked : Console)
      (h : ReturnsAll Console.host code (calls.map (FixedCall.on Console))
        (s, Console.hooks stdin) results k (t, hooked)) :
      hooked.asked = inputs Console.host code k (s, Console.hooks stdin) := by
    have hiterate := h.iterate Console.hooked_host rfl
    have hcount := asked_iterate (show (Console.hooks stdin).script.isSome = true from rfl) code k s
    rw [hiterate] at hcount
    exact hcount.trans (Nat.zero_add _)
  constructor
  · intro plain hplain
    obtain ⟨hooked, hhooked, hrelated⟩ := halike.returnsAll hserves hplain
    refine ⟨hooked, hhooked, ?_⟩
    rw [← hasked hooked hhooked]
    exact hrelated.agree
  · intro hooked hhooked
    obtain ⟨plain, hplain, hrelated⟩ := halike.symm.returnsAll hserves hhooked
    refine ⟨plain, hplain, ?_⟩
    rw [← hasked hooked hhooked]
    exact hrelated.agree

/-- A line that is no text, a run that fails at it, a step that reads the next one, and a run of
    what is left: with hooks it goes the same way, and two lines are gone. -/
theorem echo_behind_broken_line :
    ∃ hooked, ReturnsAll Console.host (Code.ofText ",.")
        [.run { limit := none, canceled := fun _ => false }, .step,
          .run { limit := some 5, canceled := fun _ => false }]
        (({ tape := Tape.blank } : State Word), Console.hooks [0xFF, 10, 3])
        [.error (.io 0 Utf8.illFormed), .ok (), .ok ()] 3
        ({ tape := Tape.blank.store 3, ip := 2 }, hooked)
      ∧ Console.Agree [0xFF, 10, 3] [] 2 { stdout := { delivered := #[3] } } hooked := by
  have hfails : (Engine.real Console.host (Code.ofText ",.")).run
      { limit := none, canceled := fun _ => false } 1
      (Run.start { tape := (Tape.blank : Tape Word) } { stdin := [0xFF, 10, 3] })
      = .ended (.error (.io 0 Utf8.illFormed))
        (Run.start { tape := Tape.blank } { stdin := [3] }) := rfl
  have hends : (Engine.real Console.host (Code.ofText ",.")).run
      { limit := some 5, canceled := fun _ => false } 2
      (Run.start { tape := (Tape.blank : Tape Word).store 3, ip := 1 } {})
      = .ended (.ok ())
        { state := { tape := Tape.blank.store 3, ip := 2 }
          world := { stdout := { delivered := #[3] } }
          steps := 1 } := rfl
  have hplain := ReturnsAll.cons (.run hfails) (.cons (.step rfl) (.cons (.run hends) .nil))
  obtain ⟨hhooked, -⟩ := standard_streams_serve_like_hooks (Code.ofText ",.")
    ({ tape := Tape.blank } : State Word) { tape := Tape.blank.store 3, ip := 2 } [0xFF, 10, 3] {}
    rfl [.run none false, .step, .run (some 5) false]
    [.error (.io 0 Utf8.illFormed), .ok (), .ok ()] 3
  exact hhooked _ hplain

end Brainfuck
