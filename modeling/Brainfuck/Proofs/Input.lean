/-
  Input: a `,` is an assignment, and what it assigns is the first character of its line.

  Two things that go on when a line is read are said here without doing them:

  1. STORING.  The current cell is reset and then counted up, from zero to the code.  Counting up
     from zero forgets what was there before, so the tape is the old one with a word put into its
     current cell (`Tape.store_eq_update`); and no code is so large that the word would be another
     number (`Tape.assigned_store`).
  2. STRIPPING.  One line feed is taken from the end of the line and then one carriage return.  What
     is left is described by what it leaves out (`Text.Drops`), and there is one solution
     (`Text.drops_iff`).  Neither step can reach the FIRST character of a line, unless that is a
     terminator itself (`Text.head?_dropFinal`): so of a line that begins otherwise nothing but its
     first character matters, however it ends (`Line.code_append_ending`).
-/
import Brainfuck.Proofs.Failure
import Brainfuck.Proofs.Integers

namespace Brainfuck

/-! ## Storing -/

namespace Tape

variable {α : Type} {n : Nat}

theorem update_update (f g : α → α) (t : Tape α) :
    (t.update f).update g = t.update fun c => g (f c) := by
  refine Tape.ext ?_ rfl
  refine Array.ext (by simp [update]) ?_
  intro i hi hi'
  simp only [update, Array.getElem_modify]
  split <;> rfl

/-- **Counting up from zero is an assignment.** -/
theorem store_eq_update (n : Nat) (t : Tape Word) : t.store n = t.update fun _ => Int64.ofNat n := by
  induction n with
  | zero => rfl
  | succ n ih =>
    show (t.store n).increment = _
    rw [ih, increment, update_update]
    show (t.update fun _ => Int64.ofNat n + 1) = _
    rw [Int64.ofNat_add]
    rfl

/-- One tape is the other with the number in its current cell. -/
structure Assigned (t : Tape Word) (n : Nat) (u : Tape Word) : Prop where
  pointer : u.pointer = t.pointer
  size : u.cells.size = t.cells.size
  cells : u.cells = t.cells.set t.pointer (Int64.ofNat n) t.pointer_lt
  /-- The word in the cell is this number and no other. -/
  current : u.value = n

theorem assigned_store (hn : n < 2 ^ 63) (t : Tape Word) : t.Assigned n (t.store n) where
  pointer := t.pointer_store n
  size := t.size_store n
  cells := by
    rw [store_eq_update]
    refine Array.ext (by simp [update]) ?_
    intro i hi hi'
    simp only [update, Array.getElem_modify, Array.getElem_set]
  current := value_store_word hn

end Tape

/-! ## Stripping -/

namespace Text

variable {c : Char} {cs rest : List Char}

/-- What is left of the characters without one `c` at their end, if there is one. -/
def Drops (c : Char) (cs rest : List Char) : Prop :=
  cs = rest ++ [c] ∨ rest = cs ∧ cs.getLast? ≠ some c

theorem dropFinal_concat (c : Char) (cs : List Char) : dropFinal c (cs ++ [c]) = cs := by
  rw [dropFinal, if_pos List.getLast?_concat, List.dropLast_concat]

theorem drops_iff : Drops c cs rest ↔ rest = dropFinal c cs := by
  constructor
  · rintro (rfl | ⟨rfl, hlast⟩)
    · rw [dropFinal_concat]
    · rw [dropFinal, if_neg hlast]
  · rintro rfl
    rw [dropFinal]
    split
    · next hlast =>
      obtain ⟨init, rfl⟩ := List.getLast?_eq_some_iff.mp hlast
      rw [List.dropLast_concat]
      exact .inl rfl
    · next hlast => exact .inr ⟨rfl, hlast⟩

/-- **The first character stays**, if it is another one. -/
theorem head?_dropFinal (h : cs.head? ≠ some c) : (dropFinal c cs).head? = cs.head? := by
  rw [dropFinal]
  split
  · next hlast =>
    obtain ⟨init, rfl⟩ := List.getLast?_eq_some_iff.mp hlast
    rw [List.dropLast_concat]
    cases init with
    | nil => exact absurd rfl h
    | cons d init => rfl
  · rfl

end Text

namespace Line

variable {line : Option String} {n : Nat} {cs : List Char}

/-- The code of the first of some characters, 0 if there is none. -/
def firstCode (cs : List Char) : Nat := (cs.head?.map Char.toNat).getD 0

/-- The number that an answer stands for. -/
inductive Means : Option String → Nat → Prop
  | endOfInput : Means none 0
  | line {text : String} {unfed body : List Char} (hfeed : Text.Drops '\n' text.toList unfed)
      (hreturn : Text.Drops '\r' unfed body) : Means (some text) (firstCode body)

theorem code_eq (text : String) :
    code text = firstCode (Text.dropFinal '\r' (Text.dropFinal '\n' text.toList)) := by
  rw [code]
  split
  · next hnil => rw [hnil]; rfl
  · next hcons => rw [hcons]; rfl

/-- **A line is read for what it means.** -/
theorem means_iff : Means line n ↔ n = answerCode line := by
  constructor
  · rintro (_ | ⟨hfeed, hreturn⟩)
    · rfl
    · rw [answerCode, code_eq, ← Text.drops_iff.mp hfeed, ← Text.drops_iff.mp hreturn]
  · rintro rfl
    cases line with
    | none => exact .endOfInput
    | some text =>
      rw [answerCode, code_eq]
      exact .line (Text.drops_iff.mpr rfl) (Text.drops_iff.mpr rfl)

theorem firstCode_dropFinal {c : Char} (h : cs.head? ≠ some c) :
    firstCode (Text.dropFinal c cs) = firstCode cs := by
  rw [firstCode, Text.head?_dropFinal h, firstCode]

/-- **It does not matter how a line ends**, nor what else is in it, if its first character does not
    belong to its end. -/
theorem code_append_ending {text ending : String}
    (hfirst : ∀ c, text.toList.head? = some c → c ≠ '\r' ∧ c ≠ '\n')
    (hending : ending ∈ ["", "\n", "\r\n"]) :
    code (text ++ ending) = firstCode text.toList := by
  have hreturn : text.toList.head? ≠ some '\r' := fun h => (hfirst _ h).1 rfl
  have hfeed : text.toList.head? ≠ some '\n' := fun h => (hfirst _ h).2 rfl
  rw [code_eq, String.toList_append]
  simp only [List.mem_cons, List.not_mem_nil, or_false] at hending
  rcases hending with rfl | rfl | rfl
  · show firstCode (Text.dropFinal '\r' (Text.dropFinal '\n' (text.toList ++ []))) = _
    rw [List.append_nil, firstCode_dropFinal, firstCode_dropFinal hfeed]
    rw [Text.head?_dropFinal hfeed]
    exact hreturn
  · show firstCode (Text.dropFinal '\r' (Text.dropFinal '\n' (text.toList ++ ['\n']))) = _
    rw [Text.dropFinal_concat, firstCode_dropFinal hreturn]
  · show firstCode (Text.dropFinal '\r' (Text.dropFinal '\n' (text.toList ++ ['\r', '\n']))) = _
    have hends : text.toList ++ ['\r', '\n'] = text.toList ++ ['\r'] ++ ['\n'] := by
      rw [List.append_assoc]
      rfl
    rw [hends, Text.dropFinal_concat, Text.dropFinal_concat]

end Line

/-! ## Reading -/

variable {σ : Type} {host : Host σ} {code : Code} {s : State Word}

/-- Whenever the host answers with this line, the instruction under the pointer succeeds, and all it
    does to the tape is to put the number into its current cell. -/
def State.Assigns (host : Host σ) (code : Code) (s : State Word) (line : Option String)
    (n : Nat) : Prop :=
  ∀ w w', host.readLine w = (.ok line, w') →
    ∃ tape, attempt host code s w = ⟨.ok (), { tape, ip := s.ip + 1 }, w'⟩
      ∧ s.tape.Assigned n tape

theorem assigned_answerCode (t : Tape Word) (line : Option String) :
    t.Assigned (Line.answerCode line) (t.store (Line.answerCode line)) := by
  have hcode := Line.answerCode_le line
  exact Tape.assigned_store (by omega) t

theorem assigns_answerCode (hi : code.program[s.ip]? = some .input) (line : Option String) :
    s.Assigns host code line (Line.answerCode line) := by
  intro w w' hread
  have hcall : HostCall host code s w _ := .stored hi hread
  exact ⟨_, hcall.attempt_eq, assigned_answerCode s.tape line⟩

/-- **A `,` is an assignment.**  Every answer to a request stands for a number: the code of the first
    character that is left of the line, without one line feed at its end and then one carriage
    return, or 0.  Whatever the tape and whoever answers, the `,` puts this number into the current
    cell and does nothing else to the tape.  A session does so in every real call that is not
    stopped beforehand.

    A line that does not begin with a terminator stands for its first character, whatever follows and
    with any of three endings, and for 0 if it is empty. -/
theorem input_is_an_assignment (host : Host σ) (code : Code) (s : State Word)
    (hi : code.program[s.ip]? = some .input) :
    (∀ line, ∃ n, Line.Means line n)
    ∧ (∀ line n, Line.Means line n → s.Assigns host code line n)
    ∧ (∀ (console console' : Console) (c : Call), c.IsReal → c.stopped? console = none →
      ∀ line n, console.readLine = (.ok line, console') → Line.Means line n →
        ∃ tape, ({ code, state := s, console } : Session).reached 1 c
            = { code, state := { tape, ip := s.ip + 1 }, console := console' }
          ∧ s.tape.Assigned n tape)
    ∧ ∀ text : String, (∀ c, text.toList.head? = some c → c ≠ '\r' ∧ c ≠ '\n') →
      ∀ ending ∈ ["", "\n", "\r\n"],
        Line.Means (some (text ++ ending)) (Line.firstCode text.toList)
        ∧ s.Assigns host code (some (text ++ ending)) (Line.firstCode text.toList) := by
  have hassigns (line : Option String) (n : Nat) (h : Line.Means line n) :
      s.Assigns host code line n := by
    rw [Line.means_iff.mp h]
    exact assigns_answerCode hi line
  refine ⟨fun line => ⟨_, Line.means_iff.mpr rfl⟩, hassigns, ?_, ?_⟩
  · intro console console' c hreal hstopped line n hread hmeans
    rw [Line.means_iff.mp hmeans]
    have hreached : ({ code, state := s, console } : Session).reached 1 c
        = { code, state := s.received console.readLine.1, console := console.readLine.2 } :=
      Session.reached_one_of_input hreal hstopped hi
    refine ⟨_, ?_, assigned_answerCode s.tape line⟩
    rw [hreached, hread]
    rfl
  · intro text hfirst ending hending
    have hmeans : Line.Means (some (text ++ ending)) (Line.firstCode text.toList) :=
      Line.means_iff.mpr (Line.code_append_ending hfirst hending).symm
    exact ⟨hmeans, hassigns _ _ hmeans⟩

/-- A cell below zero, and a line with a letter of two bytes: with three endings it is the same letter
    that is stored in its place.  A carriage return alone is an end without a line. -/
theorem letter_replaces_minus_one :
    (∀ ending ∈ ["", "\n", "\r\n"],
      ({ tape := Tape.blank.decrement } : State Word).Assigns Console.host (Code.ofText ",")
        (some ("é\r," ++ ending)) 233)
      ∧ ({ tape := Tape.blank.decrement } : State Word).Assigns Console.host (Code.ofText ",")
        (some "\r") 0
      ∧ ∃ tape,
        ({ code := Code.ofText ",", state := { tape := Tape.blank.decrement },
           console := { script := some [.line "é\r\n"] } } : Session).reached 1 (.run {})
          = { code := Code.ofText ",", state := { tape, ip := 1 },
              console := { script := some [], asked := 1 } }
        ∧ (Tape.blank.decrement : Tape Word).Assigned 233 tape := by
  obtain ⟨-, hmeans, hsession, hendings⟩ := input_is_an_assignment Console.host (Code.ofText ",")
    ({ tape := Tape.blank.decrement } : State Word) rfl
  refine ⟨?_, ?_, ?_⟩
  · intro ending hending
    have hfirst : ∀ c, "é\r,".toList.head? = some c → c ≠ '\r' ∧ c ≠ '\n' := by
      rintro c ⟨⟩
      decide
    exact (hendings "é\r," hfirst ending hending).2
  · have hunfed : Text.Drops '\n' "\r".toList ['\r'] := .inr ⟨rfl, by decide⟩
    have hbare : Text.Drops '\r' ['\r'] [] := .inl rfl
    exact hmeans _ _ (.line hunfed hbare)
  · have hfirst : ∀ c, "é".toList.head? = some c → c ≠ '\r' ∧ c ≠ '\n' := by
      rintro c ⟨⟩
      decide
    have hletter := (hendings "é" hfirst "\r\n" (by decide)).1
    exact hsession _ _ (.run {}) trivial rfl _ 233 rfl hletter

end Brainfuck
