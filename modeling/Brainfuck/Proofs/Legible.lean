/-
  Legible: a table says one thing only.

  What has been printed is a TEXT.  Blanks fill up its columns, a value may be wider than the column
  it stands in, and what an instruction has done is told in words.  So the layout is said character
  by character here (`Row.Shown`, `Row.Listed`), and then shown to leave no choice to who reads it:

  1. A NUMBER is written with digits only, maybe behind a minus sign.
  2. A CELL of a column is a text without blanks, and blanks behind it (`Fills.unique`).
  3. The WORDS for an action begin with six characters that no other kind of action has
     (`Action.alike_of_lead`), and the numbers in them end at the next character that is no digit.
  4. A ROW has its bars and a TABLE the ends of its lines, and neither stands anywhere else.

  The one argument in all of this is `cut_unique`: a character that is in neither of two texts shows
  where each of them ends.
-/
import Brainfuck.Trace
import Mathlib.Data.List.Forall2

namespace Brainfuck

/-! ## Numbers and cells -/

/-- A character is in neither of two texts, so it is not in both together. -/
theorem not_mem_append {c : Char} {a b : String} (ha : c ∉ a.toList) (hb : c ∉ b.toList) :
    c ∉ (a ++ b).toList := by
  rw [String.toList_append, List.mem_append, not_or]
  exact ⟨ha, hb⟩

/-- A number is written with digits only. -/
theorem not_mem_toString {c : Char} (hc : c.isDigit = false) (n : Nat) :
    c ∉ (toString n).toList := by
  intro hmem
  have hdigits : (toString n).toList = Nat.toDigits 10 n := String.toList_ofList
  rw [hdigits] at hmem
  have hdigit := Nat.isDigit_of_mem_toDigits (by decide) (by decide) hmem
  rw [hc] at hdigit
  nomatch hdigit

/-- A value is written with digits, and a minus sign if it needs one. -/
theorem not_mem_toString_int {c : Char} (hc : c.isDigit = false) (hminus : c ≠ '-') (n : Int) :
    c ∉ (toString n).toList := by
  cases n with
  | ofNat n => exact not_mem_toString hc n
  | negSucc n =>
    have hsign : c ∉ ("-" : String).toList := by simpa using hminus
    exact not_mem_append hsign (not_mem_toString hc (n + 1))

/-- No two numbers are written alike, -/
theorem toString_injective {n m : Nat} (h : toString n = toString m) : n = m := by
  have hdigits : Nat.toDigits 10 n = Nat.toDigits 10 m := String.ofList_injective h
  calc n = Nat.ofDigitChars 10 (Nat.toDigits 10 n) 0 := Nat.ofDigitChars_ten_toDigits.symm
    _ = Nat.ofDigitChars 10 (Nat.toDigits 10 m) 0 := by rw [hdigits]
    _ = m := Nat.ofDigitChars_ten_toDigits

/-- and no two values: a minus sign is no digit. -/
theorem toString_int_injective {n m : Int} (h : toString n = toString m) : n = m := by
  have hsign (k l : Nat) : toString k ≠ "-" ++ toString l := by
    intro heq
    have hmem : '-' ∉ ("-" ++ toString l).toList := heq ▸ not_mem_toString (by decide) k
    rw [String.toList_append] at hmem
    exact hmem List.mem_cons_self
  cases n with
  | ofNat n =>
    cases m with
    | ofNat m => exact congrArg Int.ofNat (toString_injective h)
    | negSucc m => exact absurd h (hsign n (m + 1))
  | negSucc n =>
    cases m with
    | ofNat m => exact absurd h.symm (hsign m (n + 1))
    | negSucc m =>
      have hnumber : toString (n + 1) = toString (m + 1) := (String.append_right_inj "-").mp h
      rw [Nat.succ.inj (toString_injective hnumber)]

/-- **A character that is in neither of two texts shows where each of them ends.** -/
theorem cut_unique {c : Char} {a b s t : List Char} (ha : c ∉ a) (hb : c ∉ b)
    (h : a ++ c :: s = b ++ c :: t) : a = b ∧ s = t := by
  induction a generalizing b with
  | nil =>
    cases b with
    | nil => exact ⟨rfl, (List.cons.inj h).2⟩
    | cons d b => exact absurd ((List.cons.inj h).1 ▸ List.mem_cons_self) hb
  | cons d a ih =>
    cases b with
    | nil => exact absurd ((List.cons.inj h).1 ▸ List.mem_cons_self) ha
    | cons e b =>
      obtain ⟨rfl, hrest⟩ := List.cons.inj h
      obtain ⟨rfl, rfl⟩ := ih (List.not_mem_of_not_mem_cons ha) (List.not_mem_of_not_mem_cons hb)
        hrest
      exact ⟨rfl, rfl⟩

/-- The cell shows the text in a column of this width: it has blanks behind it, as many as the
    column has room for. -/
structure Fills (width : Nat) (text cell : String) : Prop where
  blanks : ∃ n, cell.toList = text.toList ++ List.replicate n ' '
  length_eq : cell.length = max width text.length

namespace Fills

variable {width width' : Nat} {text text' cell : String}

/-- Nothing is in a cell but its text and blanks. -/
theorem not_mem (h : Fills width text cell) {c : Char} (hc : c ≠ ' ') (htext : c ∉ text.toList) :
    c ∉ cell.toList := by
  obtain ⟨n, hn⟩ := h.blanks
  rw [hn, List.mem_append, not_or]
  exact ⟨htext, fun hmem => hc (List.eq_of_mem_replicate hmem)⟩

/-- A cell shows one text without blanks. -/
theorem unique (h : Fills width text cell) (h' : Fills width' text' cell)
    (htext : ' ' ∉ text.toList) (htext' : ' ' ∉ text'.toList) : text = text' := by
  obtain ⟨n, hn⟩ := h.blanks
  obtain ⟨m, hm⟩ := h'.blanks
  -- One blank more, so that there is a first one.
  have hcut : text.toList ++ ' ' :: List.replicate n ' '
      = text'.toList ++ ' ' :: List.replicate m ' ' := by
    rw [← List.replicate_succ, ← List.replicate_succ, List.replicate_succ',
      List.replicate_succ', ← List.append_assoc, ← List.append_assoc, ← hn, ← hm]
  exact String.toList_inj.mp (cut_unique htext htext' hcut).1

end Fills

theorem fills_column (width : Nat) (text : String) : Fills width text (Row.column width text) where
  blanks := ⟨width - text.length, by rw [Row.column, String.toList_append, String.toList_ofList]⟩
  length_eq := by
    rw [Row.column, String.length_append, String.length_ofList, List.length_replicate]
    omega

/-! ## Words -/

namespace Action

/-- What a table says for an action. -/
inductive Words : Action → String → Prop
  | moved (pointer : Nat) :
      Words (.moved pointer) ("Moved pointer head to index " ++ toString pointer)
  | incremented (pointer : Nat) (before after : Int) :
      Words (.incremented pointer before after)
        ("Increment cell[" ++ toString pointer ++ "] from " ++ toString before ++ " to "
          ++ toString after)
  | decremented (pointer : Nat) (before after : Int) :
      Words (.decremented pointer before after)
        ("Decrement cell[" ++ toString pointer ++ "] from " ++ toString before ++ " to "
          ++ toString after)
  | withheld (byte : UInt8) :
      Words (.withheld byte) ("Output byte " ++ toString byte.toNat ++ " (suppressed in debug)")
  | readNothing : Words .readNothing "Read line -> simulated EOF (set cell to 0)"
  | jumpedForward (close : Nat) :
      Words (.jumpedForward close)
        ("Cell is 0; jump forward to matching ']' at IP " ++ toString close)
  | entered : Words .entered "Enter loop (cell != 0)"
  | jumpedBack (opening : Nat) :
      Words (.jumpedBack opening)
        ("Cell != 0; jump back to matching '[' at IP " ++ toString opening)
  | exited : Words .exited "Exit loop (cell is 0)"

/-- What is said for an action is that, and nothing else. -/
theorem words_iff {action : Action} {text : String} :
    action.Words text ↔ text = action.describe := by
  constructor
  · intro h
    cases h <;> rfl
  · rintro rfl
    cases action <;> constructor

/-- They stand on one line. -/
theorem Words.newline_not_mem {action : Action} {text : String} (h : action.Words text) :
    '\n' ∉ text.toList := by
  have hnumber (n : Nat) : '\n' ∉ (toString n).toList := not_mem_toString (by decide) n
  have hvalue (n : Int) : '\n' ∉ (toString n).toList :=
    not_mem_toString_int (by decide) (by decide) n
  have hchange {word : String} (p : Nat) (m n : Int) (hword : '\n' ∉ word.toList) :
      '\n' ∉ (word ++ toString p ++ "] from " ++ toString m ++ " to " ++ toString n).toList :=
    have hbefore := not_mem_append (not_mem_append hword (hnumber p)) (by simp)
    not_mem_append (not_mem_append (not_mem_append hbefore (hvalue m)) (by simp)) (hvalue n)
  cases h with
  | moved p => exact not_mem_append (by simp) (hnumber p)
  | incremented p m n => exact hchange p m n (by simp)
  | decremented p m n => exact hchange p m n (by simp)
  | withheld b => exact not_mem_append (not_mem_append (by simp) (hnumber b.toNat)) (by simp)
  | readNothing => simp
  | jumpedForward p => exact not_mem_append (by simp) (hnumber p)
  | entered => simp
  | jumpedBack p => exact not_mem_append (by simp) (hnumber p)
  | exited => simp

/-- The first six characters of the words for an action. -/
def lead : Action → List Char
  | moved _ => ['M', 'o', 'v', 'e', 'd', ' ']
  | incremented _ _ _ => ['I', 'n', 'c', 'r', 'e', 'm']
  | decremented _ _ _ => ['D', 'e', 'c', 'r', 'e', 'm']
  | withheld _ => ['O', 'u', 't', 'p', 'u', 't']
  | readNothing => ['R', 'e', 'a', 'd', ' ', 'l']
  | jumpedForward _ => ['C', 'e', 'l', 'l', ' ', 'i']
  | entered => ['E', 'n', 't', 'e', 'r', ' ']
  | jumpedBack _ => ['C', 'e', 'l', 'l', ' ', '!']
  | exited => ['E', 'x', 'i', 't', ' ', 'l']

/-- All words for an action begin with them. -/
theorem Words.take_eq {action : Action} {text : String} (h : action.Words text) :
    text.toList.take 6 = action.lead := by
  cases h <;> simp [lead]

/-- Two actions of one kind, with values of their own. -/
inductive Alike : Action → Action → Prop
  | moved (p q : Nat) : Alike (.moved p) (.moved q)
  | incremented (p q : Nat) (m n m' n' : Int) :
      Alike (.incremented p m n) (.incremented q m' n')
  | decremented (p q : Nat) (m n m' n' : Int) :
      Alike (.decremented p m n) (.decremented q m' n')
  | withheld (b c : UInt8) : Alike (.withheld b) (.withheld c)
  | readNothing : Alike .readNothing .readNothing
  | jumpedForward (p q : Nat) : Alike (.jumpedForward p) (.jumpedForward q)
  | entered : Alike .entered .entered
  | jumpedBack (p q : Nat) : Alike (.jumpedBack p) (.jumpedBack q)
  | exited : Alike .exited .exited

/-- No two kinds of actions begin alike. -/
theorem alike_of_lead {a b : Action} (h : a.lead = b.lead) : Alike a b := by
  -- Of all pairs only the nine of one kind are left.
  cases a <;> cases b <;> simp [lead] at h <;> constructor

/-- The number behind a word. -/
theorem number_unique {word : String} {p q : Nat} (h : word ++ toString p = word ++ toString q) :
    p = q :=
  toString_injective ((String.append_right_inj word).mp h)

/-- What has become of a cell, behind the word that says what has been done to it. -/
theorem change_unique {word : String} {p q : Nat} {m n m' n' : Int}
    (h : word ++ toString p ++ "] from " ++ toString m ++ " to " ++ toString n
      = word ++ toString q ++ "] from " ++ toString m' ++ " to " ++ toString n') :
    p = q ∧ m = m' ∧ n = n' := by
  have h := congrArg String.toList h
  simp only [String.toList_append, List.append_assoc] at h
  have hnumber (n : Nat) : ']' ∉ (toString n).toList := not_mem_toString (by decide) n
  have hvalue (n : Int) : ' ' ∉ (toString n).toList :=
    not_mem_toString_int (by decide) (by decide) n
  obtain ⟨hp, h⟩ := cut_unique (hnumber p) (hnumber q) (List.append_cancel_left h)
  obtain ⟨hm, h⟩ := cut_unique (hvalue m) (hvalue m')
    ((List.append_right_inj " from ".toList).mp h)
  have hn := (List.append_right_inj "to ".toList).mp h
  exact ⟨toString_injective (String.toList_inj.mp hp),
    toString_int_injective (String.toList_inj.mp hm),
    toString_int_injective (String.toList_inj.mp hn)⟩

/-- **The words for an action are those of no other**: the beginning gives its kind, and the rest
    the values. -/
theorem Words.unique {a b : Action} {text : String} (h : a.Words text) (h' : b.Words text) :
    a = b := by
  have halike : Alike a b := alike_of_lead (h.take_eq.symm.trans h'.take_eq)
  have hwords : a.describe = b.describe := (words_iff.mp h).symm.trans (words_iff.mp h')
  cases halike with
  | moved p q => rw [number_unique hwords]
  | incremented p q m n m' n' =>
    obtain ⟨rfl, rfl, rfl⟩ := change_unique hwords
    rfl
  | decremented p q m n m' n' =>
    obtain ⟨rfl, rfl, rfl⟩ := change_unique hwords
    rfl
  | withheld b c =>
    have hnumber := number_unique ((String.append_left_inj _).mp hwords)
    rw [UInt8.toNat_inj.mp hnumber]
  | readNothing => rfl
  | jumpedForward p q => rw [number_unique hwords]
  | entered => rfl
  | jumpedBack p q => rw [number_unique hwords]
  | exited => rfl

end Action

/-! ## Rows -/

namespace Row

/-- What stands between the bars of a line. -/
@[ext] structure Cells where
  step : String
  ip : String
  pointer : String
  cell : String
  char : Char
  words : String

/-- The line with these cells. -/
def Cells.line (cells : Cells) : String :=
  cells.step ++ " | " ++ cells.ip ++ " | " ++ cells.pointer ++ " | " ++ cells.cell ++ " |  "
    ++ cells.char.toString ++ "    | " ++ cells.words ++ "\n"

/-- The cells show the row: its numbers each in a column of their own, the character that is read as
    its instruction, and the words for its action. -/
structure Cells.Show (cells : Cells) (row : Row) : Prop where
  step : Fills 4 (toString row.step) cells.step
  ip : Fills 3 (toString row.before.ip) cells.ip
  pointer : Fills 3 (toString row.before.pointer) cells.pointer
  cell : Fills 4 (toString row.before.cell) cells.cell
  char : Instruction.ofChar? cells.char = some row.instruction
  words : row.action.Words cells.words

/-- The line shows the row. -/
def Shown (row : Row) (line : String) : Prop := ∃ cells : Cells, cells.Show row ∧ line = cells.line

theorem shown_render (row : Row) : row.Shown row.render :=
  ⟨{ step := column 4 (toString row.step)
     ip := column 3 (toString row.before.ip)
     pointer := column 3 (toString row.before.pointer)
     cell := column 4 (toString row.before.cell)
     char := row.instruction.toChar
     words := row.action.describe },
   { step := fills_column _ _
     ip := fills_column _ _
     pointer := fills_column _ _
     cell := fills_column _ _
     char := Instruction.ofChar?_toChar row.instruction
     words := Action.words_iff.mpr rfl },
   rfl⟩

example : render
    { step := 12, before := { ip := 7, pointer := 10000, cell := -1 }, instruction := .increment,
      action := .incremented 10000 (-1) 0 }
    = "12   | 7   | 10000 | -1   |  +    | Increment cell[10000] from -1 to 0\n" := by
  decide

variable {row row' : Row} {cells cells' : Cells} {line : String}

namespace Cells.Show

/-- Only numbers and blanks stand in the columns of the numbers. -/
theorem not_mem (h : cells.Show row) {c : Char} (hdigit : c.isDigit = false) (hminus : c ≠ '-')
    (hblank : c ≠ ' ') :
    c ∉ cells.step.toList ∧ c ∉ cells.ip.toList ∧ c ∉ cells.pointer.toList
      ∧ c ∉ cells.cell.toList :=
  ⟨h.step.not_mem hblank (not_mem_toString hdigit _),
    h.ip.not_mem hblank (not_mem_toString hdigit _),
    h.pointer.not_mem hblank (not_mem_toString hdigit _),
    h.cell.not_mem hblank (not_mem_toString_int hdigit hminus _)⟩

/-- A character that is no instruction is not the one of the row. -/
theorem ne_char (h : cells.Show row) {c : Char} (hc : Instruction.ofChar? c = none) :
    c ≠ cells.char := by
  rintro rfl
  cases hc.symm.trans h.char

/-- Cells show one row. -/
theorem unique (h : cells.Show row) (h' : cells.Show row') : row = row' := by
  have hnumber (n : Nat) : ' ' ∉ (toString n).toList := not_mem_toString (by decide) n
  have hvalue (n : Int) : ' ' ∉ (toString n).toList :=
    not_mem_toString_int (by decide) (by decide) n
  have hstep := toString_injective (h.step.unique h'.step (hnumber _) (hnumber _))
  have hip := toString_injective (h.ip.unique h'.ip (hnumber _) (hnumber _))
  have hpointer := toString_injective (h.pointer.unique h'.pointer (hnumber _) (hnumber _))
  have hcell := toString_int_injective (h.cell.unique h'.cell (hvalue _) (hvalue _))
  have hinstruction := Option.some.inj (h.char.symm.trans h'.char)
  have haction := h.words.unique h'.words
  obtain ⟨step, ⟨ip, pointer, cell⟩, instruction, action⟩ := row
  subst hstep hip hpointer hcell hinstruction haction
  rfl

end Cells.Show

/-- A line is cut at its bars. -/
theorem Cells.toList_line (cells : Cells) :
    cells.line.toList = (cells.step.toList ++ [' '])
      ++ '|' :: ((' ' :: cells.ip.toList ++ [' '])
      ++ '|' :: ((' ' :: cells.pointer.toList ++ [' '])
      ++ '|' :: ((' ' :: cells.cell.toList ++ [' '])
      ++ '|' :: ([' ', ' ', cells.char, ' ', ' ', ' ', ' ']
      ++ '|' :: (' ' :: cells.words.toList ++ ['\n']))))) := by
  simp [line]

theorem Cells.line_injective (h : cells.Show row) (h' : cells'.Show row')
    (hline : cells.line = cells'.line) : cells = cells' := by
  have ⟨hstep, hip, hpointer, hcell⟩ := h.not_mem (c := '|') (by decide) (by decide) (by decide)
  have ⟨hstep', hip', hpointer', hcell'⟩ :=
    h'.not_mem (c := '|') (by decide) (by decide) (by decide)
  have hchar := h.ne_char (c := '|') rfl
  have hchar' := h'.ne_char (c := '|') rfl
  have hline := congrArg String.toList hline
  rw [Cells.toList_line, Cells.toList_line] at hline
  obtain ⟨hstep, hline⟩ := cut_unique (by simp [hstep]) (by simp [hstep']) hline
  obtain ⟨hip, hline⟩ := cut_unique (by simp [hip]) (by simp [hip']) hline
  obtain ⟨hpointer, hline⟩ := cut_unique (by simp [hpointer]) (by simp [hpointer']) hline
  obtain ⟨hcell, hline⟩ := cut_unique (by simp [hcell]) (by simp [hcell']) hline
  obtain ⟨hchar, hwords⟩ := cut_unique (by simp [hchar]) (by simp [hchar']) hline
  refine Cells.ext (String.toList_inj.mp ?_) (String.toList_inj.mp ?_) (String.toList_inj.mp ?_)
    (String.toList_inj.mp ?_) ?_ (String.toList_inj.mp ?_)
  · simpa using hstep
  · simpa using hip
  · simpa using hpointer
  · simpa using hcell
  · simpa using hchar
  · simpa using hwords

/-- A line shows one row, -/
theorem Shown.unique (h : row.Shown line) (h' : row'.Shown line) : row = row' := by
  obtain ⟨cells, hcells, rfl⟩ := h
  obtain ⟨cells', hcells', hline⟩ := h'
  obtain rfl := Cells.line_injective hcells hcells' hline
  exact hcells.unique hcells'

/-- and ends at the only end of a line in it. -/
theorem Shown.ends (h : row.Shown line) : ∃ body, line = body ++ "\n" ∧ '\n' ∉ body.toList := by
  obtain ⟨cells, hcells, rfl⟩ := h
  have ⟨hstep, hip, hpointer, hcell⟩ :=
    hcells.not_mem (c := '\n') (by decide) (by decide) (by decide)
  have hchar := hcells.ne_char (c := '\n') rfl
  have hwords := hcells.words.newline_not_mem
  exact ⟨_, rfl, by simp [hstep, hip, hpointer, hcell, hchar, hwords]⟩

/-! ## Tables -/

/-- The text is the table of the rows: two lines at the head, and a line for each of them. -/
def Listed (rows : List Row) (text : String) : Prop :=
  ∃ lines, List.Forall₂ Shown rows lines
    ∧ text = "STEP | IP  | PTR | CELL | INSTR | ACTION\n"
      ++ "-----+-----+-----+------+-------+------------------------------------------------\n"
      ++ String.join lines

/-- The text of a table. -/
def table (rows : List Row) : String := header ++ String.join (rows.map render)

theorem table_nil : table [] = header := by
  rw [table, List.map_nil, String.join_nil, String.append_empty]

theorem table_append (rows : List Row) (row : Row) :
    table (rows ++ [row]) = table rows ++ row.render := by
  simp [table, String.append_assoc]

theorem listed_table (rows : List Row) : Listed rows (table rows) := by
  refine ⟨rows.map render, ?_, rfl⟩
  rw [List.forall₂_map_right_iff, List.forall₂_same]
  intro row _
  exact shown_render row

/-- Lines that show rows are put together in one way. -/
theorem join_injective {rows rows' : List Row} {lines lines' : List String}
    (h : List.Forall₂ Shown rows lines) (h' : List.Forall₂ Shown rows' lines')
    (hjoin : String.join lines = String.join lines') : rows = rows' := by
  induction h generalizing rows' lines' with
  | nil =>
    cases h' with
    | nil => rfl
    | cons hline hrest =>
      obtain ⟨body, rfl, -⟩ := hline.ends
      simp at hjoin
  | cons hline hrest ih =>
    obtain ⟨body, rfl, hbody⟩ := hline.ends
    cases h' with
    | nil => simp at hjoin
    | cons hline' hrest' =>
      obtain ⟨body', rfl, hbody'⟩ := hline'.ends
      rw [String.join_cons, String.join_cons, String.append_assoc, String.append_assoc] at hjoin
      have hcut := congrArg String.toList hjoin
      simp only [String.toList_append] at hcut
      obtain ⟨hbody, hrest⟩ := cut_unique hbody hbody' hcut
      obtain rfl := String.toList_inj.mp hbody
      rw [Shown.unique hline hline', ih hrest' (String.toList_inj.mp hrest)]

/-- **A table can be read back in one way only.** -/
theorem Listed.unique {rows rows' : List Row} {text : String} (h : Listed rows text)
    (h' : Listed rows' text) : rows = rows' := by
  obtain ⟨lines, hlines, rfl⟩ := h
  obtain ⟨lines', hlines', htext⟩ := h'
  exact join_injective hlines hlines' ((String.append_right_inj _).mp htext)

end Row

end Brainfuck
