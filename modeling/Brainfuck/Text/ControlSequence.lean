/-
  Texts without control sequences.

  A message that quotes what somebody typed must not steer the terminal it is shown on.  `strip`
  keeps of a text what a terminal would SHOW: letters, signs and layout, but no other control
  character and none of the sequences that begin with an escape character.

  1. **Sequences.**  What follows the escape character decides where the sequence ends:
       - `[` begins a CONTROL, which ends with its first character from `@` to `~`;
       - `]` begins a COMMAND, which ends with a bell;
       - `X`, `^` and `_` begin a STRING, which is closed by the byte `9C`; that may well be one
         byte of a character;
       - `P` begins a DEVICE message, which has a head: parameters from `0` to `?`, of which only
         the first may lie beyond `;`, then signs from the space to `/`.  A letter ends the head,
         and so does a parameter out of place; the rest is a string;
       - any other character is a sequence by itself, after any number of signs from the space
         to `/`.
     The cancelling characters U+0018 and U+001A end each of them, a new escape character begins
     the next, and the end of the text ends all.

  2. **Layout.**  The tabulator, the line feed, the form feed and the carriage return are shown
     even within an escape or a control.  The sequence then LAPSES: what follows is shown as
     well, up to the next control character, at which it is taken up again.
-/

namespace Brainfuck.ControlSequence

/-- The control characters that are part of a text's layout. -/
def isLayout (c : Char) : Bool := c == '\t' || c == '\n' || c == '\x0c' || c == '\r'

/-- The characters shown outside of sequences: layout and everything beyond ASCII's control
    characters. -/
def isShown (c : Char) : Bool := isLayout c || (' ' ≤ c && c ≠ '\x7f')

/-- Some byte of the character closes a string. -/
def closesString (c : Char) : Bool := (String.utf8EncodeChar c).contains 0x9C

/-! ## Within a sequence -/

/-- Where in a sequence a text stands. -/
inductive Mode
  /-- Outside. -/
  | ground
  /-- Behind an escape character. -/
  | escape
  /-- Behind an escape character and signs. -/
  | signs
  | control
  | command
  /-- At the beginning of a device message. -/
  | device
  /-- Behind parameters of a device message. -/
  | parameters
  /-- Behind signs of a device message. -/
  | deviceSigns
  /-- In a string, or in what a device is told. -/
  | string
  deriving DecidableEq

namespace Mode

def afterEscape (c : Char) : Mode :=
  if c = '[' then control
  else if c = ']' then command
  else if c = 'P' then device
  else if c = 'X' ∨ c = '^' ∨ c = '_' then string
  else if ' ' ≤ c ∧ c ≤ '/' then signs
  else if '0' ≤ c ∧ c ≤ '~' then ground
  else escape

def next (m : Mode) (c : Char) : Mode :=
  if c = '\x18' ∨ c = '\x1a' then ground
  else if c = '\x1b' then escape
  else match m with
    | ground => ground
    | escape => afterEscape c
    | signs => if '0' ≤ c ∧ c ≤ '~' then ground else signs
    | control => if '@' ≤ c ∧ c ≤ '~' then ground else control
    | command => if c = '\x07' then ground else command
    | device =>
      if '@' ≤ c ∧ c ≤ '~' then string
      else if '0' ≤ c ∧ c ≤ '?' then parameters
      else if ' ' ≤ c ∧ c ≤ '/' then deviceSigns
      else device
    | parameters =>
      if '<' ≤ c ∧ c ≤ '~' then string
      else if ' ' ≤ c ∧ c ≤ '/' then deviceSigns
      else parameters
    | deviceSigns => if '0' ≤ c ∧ c ≤ '~' then string else deviceSigns
    | string => if closesString c then ground else string

/-- The characters that are shown in a mode. -/
def shows : Mode → Char → Bool
  | ground => isShown
  | escape | signs | control => isLayout
  | command | device | parameters | deviceSigns | string => fun _ => false

end Mode

/-! ## Reading a text -/

/-- A mode, and whether its sequence has lapsed. -/
structure State where
  mode : Mode := .ground
  lapsed : Bool := false

namespace State

def shows (s : State) (c : Char) : Bool := (s.lapsed && isShown c) || s.mode.shows c

/-- A lapsed sequence is forgotten at a character beyond ASCII. -/
def next (s : State) (c : Char) : State :=
  if s.lapsed && isShown c then (if '\x7f' < c then {} else s)
  else { mode := s.mode.next c, lapsed := s.mode.shows c }

/-- What is shown of the characters that follow. -/
def stripped : State → List Char → List Char
  | _, [] => []
  | s, c :: rest =>
    if s.shows c then c :: stripped (s.next c) rest else stripped (s.next c) rest

end State

/-- A text without its control sequences. -/
def strip (text : String) : String := String.ofList (State.stripped {} text.toList)

/-! ## What is left -/

theorem isShown_of_isLayout {c : Char} (h : isLayout c = true) : isShown c = true := by
  rw [isShown, h, Bool.true_or]

theorem Mode.isShown_of_shows {m : Mode} {c : Char} (h : m.shows c = true) : isShown c = true := by
  cases m with
  | ground => exact h
  | escape | signs | control => exact isShown_of_isLayout h
  | command | device | parameters | deviceSigns | string => cases h

theorem State.isShown_of_shows {s : State} {c : Char} (h : s.shows c = true) :
    isShown c = true := by
  rw [State.shows, Bool.or_eq_true, Bool.and_eq_true] at h
  rcases h with h | h
  · exact h.2
  · exact Mode.isShown_of_shows h

/-- Nothing that a terminal would obey is left. -/
theorem isShown_of_mem_stripped {s : State} {cs : List Char} {c : Char}
    (h : c ∈ s.stripped cs) : isShown c = true := by
  induction cs generalizing s with
  | nil => cases h
  | cons d rest ih =>
    rw [State.stripped] at h
    split at h
    · rename_i hd
      rcases List.mem_cons.1 h with rfl | h
      · exact State.isShown_of_shows hd
      · exact ih h
    · exact ih h

/-- A character that is shown begins no sequence. -/
theorem State.mode_next_of_isShown {s : State} {c : Char} (hs : s.mode = .ground)
    (hc : isShown c = true) : (s.next c).mode = .ground := by
  rw [State.next]
  split
  · split
    · rfl
    · exact hs
  · rw [hs, Mode.next]
    split
    · rfl
    · split
      · rename_i h
        rw [h] at hc
        cases hc
      · rfl

/-- A text of characters that are shown stays as it is. -/
theorem stripped_eq_self {s : State} {cs : List Char} (hs : s.mode = .ground)
    (h : ∀ c ∈ cs, isShown c = true) : s.stripped cs = cs := by
  induction cs generalizing s with
  | nil => rfl
  | cons c rest ih =>
    have hc : isShown c = true := h c List.mem_cons_self
    have hshows : s.shows c = true := by
      rw [State.shows, hs]
      exact Bool.or_eq_true_iff.2 (Or.inr hc)
    rw [State.stripped, if_pos hshows,
      ih (State.mode_next_of_isShown hs hc) fun d hd => h d (List.mem_cons_of_mem c hd)]

end Brainfuck.ControlSequence
