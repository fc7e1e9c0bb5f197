/-
  Assignments: what a settings document says, and that its last word counts.

  A document is read from the top, line by line, with a flag and three values in hand.  What it
  MEANS is said here without reading it, by what stands where:

  1. **Lines.**  A line heads a section (`Heads`), or assigns a value to a key (`Assigns`), or says
     nothing; it is taken apart by what it is put together of, and there is one way to do that.
  2. **Positions.**  A line is in a `[run]` section if the nearest heading above it says so
     (`InRun`).  Only there does an assignment count (`AssignedAt`), and only if there is none of
     the same key below it (`LastAssigned`).
  3. **Values.**  The last assignment makes the setting, if its value means anything (`Reads`).

  The invariant of reading is that the flag and the values RECORD the lines above (`Records`): one
  more line adds a position at the end, and nothing that is said of the others changes
  (`Records.take`).
-/
import Brainfuck.Settings
import Brainfuck.Proofs.Lines
import Mathlib.Data.List.Forall2

namespace Brainfuck.Settings

/-! ## Lines -/

/-- The lines of a document, without the blanks around them. -/
def IsDocument (text : String) (doc : List (List Char)) : Prop :=
  ∃ lines, Text.Splits text.toList lines ∧ List.Forall₂ Text.Trims lines doc

/-- The line is a heading with this text in its brackets. -/
def Heads (line inner : List Char) : Prop := line = '[' :: (inner ++ [']'])

/-- The value is what stands there, without one pair of quotes around it if there is one. -/
def Unquotes (raw value : List Char) : Prop :=
  raw = '"' :: (value ++ ['"']) ∨ value = raw ∧ ∀ inner, raw ≠ '"' :: (inner ++ ['"'])

/-- The line is cut at its first `=`. -/
def Cuts (line before after : List Char) : Prop := line = before ++ '=' :: after ∧ '=' ∉ before

/-- The line is no comment and no heading, and assigns this value to this key. -/
structure Assigns (line key value : List Char) : Prop where
  plain : line.head? ≠ some '#'
  unheaded : ∀ inner, ¬ Heads line inner
  cut : ∃ before after raw, Cuts line before after
    ∧ Text.Trims before key ∧ Text.Trims after raw ∧ Unquotes raw value

/-- What a line, without the blanks around it, says. -/
inductive Says (line : List Char) : Entry → Prop
  | heading {inner name : List Char} (h : Heads line inner) (hname : Text.Trims inner name) :
      Says line (.header name)
  | assignment {key value : List Char} (h : Assigns line key value) :
      Says line (.assignment key value)
  | nothing (hheads : ∀ inner, ¬ Heads line inner)
      (hassigns : ∀ key value, ¬ Assigns line key value) : Says line .nothing

variable {line inner raw value key before after : List Char}

theorem forall₂_trims_iff {lines doc : List (List Char)} :
    List.Forall₂ Text.Trims lines doc ↔ doc = lines.map Text.trim := by
  have hrel : Text.Trims = fun line core => Text.trim line = core := by
    funext line core
    exact propext (Text.trims_iff.trans eq_comm)
  rw [hrel, ← List.forall₂_map_left_iff, List.forall₂_eq_eq_eq, eq_comm]

theorem isDocument_iff {text : String} {doc : List (List Char)} :
    IsDocument text doc ↔ doc = (Text.lines text.toList).map Text.trim := by
  constructor
  · rintro ⟨lines, hsplits, htrims⟩
    obtain rfl := Text.splits_iff.mp hsplits
    exact forall₂_trims_iff.mp htrims
  · intro hdoc
    exact ⟨_, Text.splits_iff.mpr rfl, forall₂_trims_iff.mpr hdoc⟩

theorem exists_heads_iff :
    (∃ inner, Heads line inner) ↔ line.head? = some '[' ∧ line.getLast? = some ']' := by
  constructor
  · rintro ⟨inner, rfl⟩
    exact ⟨rfl, List.getLast?_eq_some_iff.mpr ⟨'[' :: inner, rfl⟩⟩
  · rintro ⟨hfirst, hlast⟩
    obtain ⟨init, rfl⟩ := List.getLast?_eq_some_iff.mp hlast
    cases init with
    | nil => nomatch hfirst
    | cons c inner =>
      obtain rfl : c = '[' := Option.some.inj hfirst
      exact ⟨inner, rfl⟩

theorem Heads.inner_unique {inner' : List Char} (h : Heads line inner) (h' : Heads line inner') :
    inner = inner' := by
  have heq := (List.cons.inj (h.symm.trans h')).2
  exact List.append_cancel_right heq

theorem unquotes_unquote (raw : List Char) : Unquotes raw (unquote raw) := by
  unfold unquote
  split
  · next rest =>
    split
    · next hlast =>
      obtain ⟨inner, rfl⟩ := List.getLast?_eq_some_iff.mp hlast
      rw [List.dropLast_concat]
      exact .inl rfl
    · next hlast =>
      refine .inr ⟨rfl, ?_⟩
      intro inner heq
      obtain ⟨-, rfl⟩ := List.cons.inj heq
      exact hlast (List.getLast?_eq_some_iff.mpr ⟨inner, rfl⟩)
  · next hother =>
    exact .inr ⟨rfl, fun inner => hother (inner ++ ['"'])⟩

theorem Unquotes.value_unique {value' : List Char} (h : Unquotes raw value)
    (h' : Unquotes raw value') : value = value' := by
  rcases h with rfl | ⟨rfl, hnone⟩
  · rcases h' with heq | ⟨-, hnone⟩
    · exact List.append_cancel_right (List.cons.inj heq).2
    · exact absurd rfl (hnone value)
  · rcases h' with heq | ⟨rfl, -⟩
    · exact absurd heq (hnone value')
    · rfl

theorem Cuts.takeWhile (h : Cuts line before after) : line.takeWhile (· ≠ '=') = before := by
  obtain ⟨rfl, hnot⟩ := h
  have hbefore : ∀ c ∈ before, decide (c ≠ '=') = true := by
    intro c hc
    refine decide_eq_true ?_
    rintro rfl
    exact hnot hc
  rw [List.takeWhile_append_of_pos hbefore, List.takeWhile_cons_of_neg (by decide),
    List.append_nil]

theorem Cuts.dropWhile (h : Cuts line before after) : line.dropWhile (· ≠ '=') = '=' :: after := by
  have hjoin := List.takeWhile_append_dropWhile (p := (· ≠ '=')) (l := line)
  rw [h.takeWhile] at hjoin
  exact List.append_cancel_left (hjoin.trans h.1)

/-- A line is cut in one way. -/
theorem Cuts.unique {before' after' : List Char} (h : Cuts line before after)
    (h' : Cuts line before' after') : before = before' ∧ after = after' :=
  ⟨h.takeWhile.symm.trans h'.takeWhile, (List.cons.inj (h.dropWhile.symm.trans h'.dropWhile)).2⟩

/-- A line assigns one value to one key. -/
theorem Assigns.unique {key' value' : List Char} (h : Assigns line key value)
    (h' : Assigns line key' value') : key = key' ∧ value = value' := by
  obtain ⟨before, after, raw, hcuts, hkey, hraw, hvalue⟩ := h.cut
  obtain ⟨before', after', raw', hcuts', hkey', hraw', hvalue'⟩ := h'.cut
  obtain ⟨rfl, rfl⟩ := hcuts.unique hcuts'
  obtain rfl := hraw.unique hraw'
  exact ⟨hkey.unique hkey', hvalue.value_unique hvalue'⟩

/-- What is neither a comment nor a heading is looked through for a `=`. -/
theorem says_ofAssignment (hplain : line.head? ≠ some '#')
    (hunheaded : ∀ inner, ¬ Heads line inner) : Says line (Entry.ofAssignment line) := by
  by_cases hmem : '=' ∈ line
  · obtain ⟨before, after, heq, hnot⟩ := List.eq_append_cons_of_mem hmem
    have hcuts : Cuts line before after := ⟨heq, hnot⟩
    rw [Entry.ofAssignment, hcuts.dropWhile, hcuts.takeWhile]
    exact .assignment ⟨hplain, hunheaded, before, after, Text.trim after, hcuts,
      Text.trims_trim before, Text.trims_trim after, unquotes_unquote _⟩
  · have hnone : line.dropWhile (· ≠ '=') = [] := by
      rw [List.dropWhile_eq_nil_iff]
      intro c hc
      refine decide_eq_true ?_
      rintro rfl
      exact hmem hc
    rw [Entry.ofAssignment, hnone]
    refine .nothing hunheaded ?_
    rintro key value ⟨-, -, before, after, -, ⟨rfl, -⟩, -⟩
    exact hmem (List.mem_append_right before List.mem_cons_self)

/-- **A line is taken for what it says.** -/
theorem says_ofLine (line : List Char) : Says (Text.trim line) (Entry.ofLine line) := by
  unfold Entry.ofLine
  split
  · next hempty =>
    rw [hempty]
    refine .nothing (fun inner h => nomatch h) ?_
    rintro key value ⟨-, -, before, after, -, ⟨heq, -⟩, -⟩
    cases before <;> nomatch heq
  · next rest hcomment =>
    rw [hcomment]
    exact .nothing (fun inner h => nomatch h) fun key value h => h.plain rfl
  · next rest hbracket =>
    rw [hbracket]
    split
    · next hlast =>
      obtain ⟨inner, rfl⟩ := List.getLast?_eq_some_iff.mp hlast
      rw [List.dropLast_concat]
      exact .heading rfl (Text.trims_trim inner)
    · next hlast =>
      refine says_ofAssignment (fun h => nomatch h) ?_
      rintro inner ⟨⟩
      exact hlast (List.getLast?_eq_some_iff.mpr ⟨inner, rfl⟩)
  · next hempty hcomment hbracket =>
    refine says_ofAssignment ?_ ?_
    · intro hhead
      obtain ⟨rest, heq⟩ := List.head?_eq_some_iff.mp hhead
      exact hcomment rest heq
    · intro inner hheads
      exact hbracket (inner ++ [']']) hheads

/-- A line says one thing. -/
theorem Says.unique {entry entry' : Entry} (h : Says line entry) (h' : Says line entry') :
    entry = entry' := by
  cases h with
  | heading hheads hname =>
    cases h' with
    | heading hheads' hname' =>
      obtain rfl := hheads.inner_unique hheads'
      rw [hname.unique hname']
    | assignment hassigns => exact absurd hheads (hassigns.unheaded _)
    | nothing hnone _ => exact absurd hheads (hnone _)
  | assignment hassigns =>
    cases h' with
    | heading hheads _ => exact absurd hheads (hassigns.unheaded _)
    | assignment hassigns' =>
      obtain ⟨rfl, rfl⟩ := hassigns.unique hassigns'
      rfl
    | nothing _ hnone => exact absurd hassigns (hnone _ _)
  | nothing hnoHeading hnoAssignment =>
    cases h' with
    | heading hheads _ => exact absurd hheads (hnoHeading _)
    | assignment hassigns => exact absurd hassigns (hnoAssignment _ _)
    | nothing _ _ => rfl

theorem says_trim_iff {entry : Entry} : Says (Text.trim line) entry ↔ entry = Entry.ofLine line := by
  refine ⟨fun h => h.unique (says_ofLine line), ?_⟩
  rintro rfl
  exact says_ofLine line

/-! ## Positions -/

/-- The keys that are looked at. -/
inductive Key
  | timeoutMs
  | maxSteps
  | strictBrackets

/-- As a document spells it. -/
def Key.name : Key → List Char
  | timeoutMs => "timeout_ms".toList
  | maxSteps => "max_steps".toList
  | strictBrackets => "strict_brackets".toList

def HeadedAt (doc : List (List Char)) (j : Nat) (inner : List Char) : Prop :=
  ∃ line, doc[j]? = some line ∧ Heads line inner

/-- The nearest heading above position `k` is this one. -/
def Under (doc : List (List Char)) (k : Nat) (inner : List Char) : Prop :=
  ∃ j, j < k ∧ HeadedAt doc j inner ∧ ∀ i, j < i → i < k → ∀ other, ¬ HeadedAt doc i other

def InRun (doc : List (List Char)) (k : Nat) : Prop :=
  ∃ inner, Under doc k inner ∧ Text.Trims inner "run".toList

/-- The line at position `k` assigns the value to the key, in a `[run]` section. -/
def AssignedAt (doc : List (List Char)) (k : Nat) (key : Key) (value : List Char) : Prop :=
  InRun doc k ∧ ∃ line, doc[k]? = some line ∧ Assigns line key.name value

/-- The value is assigned to the key, and nothing is assigned to it below. -/
def LastAssigned (doc : List (List Char)) (key : Key) (value : List Char) : Prop :=
  ∃ k, AssignedAt doc k key value ∧ ∀ l, k < l → ∀ later, ¬ AssignedAt doc l key later

section Positions

variable {doc : List (List Char)} {k : Nat} {key : Key}

theorem AssignedAt.lt_length (h : AssignedAt doc k key value) : k < doc.length := by
  obtain ⟨-, line, hline, -⟩ := h
  exact (List.getElem?_eq_some_iff.mp hline).1

/-- At most one value is assigned last. -/
theorem LastAssigned.value_unique {value' : List Char} (h : LastAssigned doc key value)
    (h' : LastAssigned doc key value') : value = value' := by
  obtain ⟨k, hk, hlast⟩ := h
  obtain ⟨k', hk', hlast'⟩ := h'
  rcases Nat.lt_trichotomy k k' with hlt | rfl | hlt
  · exact absurd hk' (hlast k' hlt value')
  · obtain ⟨-, line, hline, hassigns⟩ := hk
    obtain ⟨-, line', hline', hassigns'⟩ := hk'
    obtain rfl := Option.some.inj (hline.symm.trans hline')
    exact (hassigns.unique hassigns').2
  · exact absurd hk (hlast' k hlt value)

/-! ### One line more -/

theorem exists_concat_length {p : List Char → Prop} :
    (∃ last, (doc ++ [line])[doc.length]? = some last ∧ p last) ↔ p line := by
  rw [List.getElem?_concat_length]
  constructor
  · rintro ⟨_, ⟨⟩, h⟩
    exact h
  · intro h
    exact ⟨line, rfl, h⟩

theorem headedAt_concat_of_lt (hk : k < doc.length) :
    HeadedAt (doc ++ [line]) k inner ↔ HeadedAt doc k inner := by
  rw [HeadedAt, List.getElem?_append_left hk, HeadedAt]

theorem headedAt_concat_length :
    HeadedAt (doc ++ [line]) doc.length inner ↔ Heads line inner :=
  exists_concat_length

theorem under_concat_of_le (hk : k ≤ doc.length) :
    Under (doc ++ [line]) k inner ↔ Under doc k inner := by
  have hheaded {j : Nat} (hj : j < k) (inner : List Char) :
      HeadedAt (doc ++ [line]) j inner ↔ HeadedAt doc j inner :=
    headedAt_concat_of_lt (Nat.lt_of_lt_of_le hj hk)
  refine exists_congr fun j => and_congr_right fun hj => and_congr (hheaded hj inner) ?_
  refine forall_congr' fun i => imp_congr_right fun _ => imp_congr_right fun hi => ?_
  exact forall_congr' fun other => not_congr (hheaded hi other)

/-- Below a heading one is under it. -/
theorem under_concat_of_heads {other : List Char} (h : Heads line inner) :
    Under (doc ++ [line]) (doc.length + 1) other ↔ other = inner := by
  constructor
  · rintro ⟨j, hj, hheaded, hnone⟩
    obtain hlt | rfl := Nat.lt_or_eq_of_le (Nat.le_of_lt_succ hj)
    · exact absurd (headedAt_concat_length.mpr h) (hnone _ hlt (Nat.lt_succ_self _) inner)
    · exact (headedAt_concat_length.mp hheaded).inner_unique h
  · rintro rfl
    refine ⟨doc.length, Nat.lt_succ_self _, headedAt_concat_length.mpr h, ?_⟩
    intro i hi hi'
    omega

/-- Below any other line one is where the line is. -/
theorem under_concat_of_not_heads (h : ∀ inner, ¬ Heads line inner) :
    Under (doc ++ [line]) (doc.length + 1) inner ↔ Under doc doc.length inner := by
  have hsame : Under (doc ++ [line]) doc.length inner ↔ Under doc doc.length inner :=
    under_concat_of_le (Nat.le_refl _)
  rw [← hsame]
  constructor
  · rintro ⟨j, hj, hheaded, hnone⟩
    obtain hlt | rfl := Nat.lt_or_eq_of_le (Nat.le_of_lt_succ hj)
    · exact ⟨j, hlt, hheaded, fun i hji hi => hnone i hji (Nat.lt_succ_of_lt hi)⟩
    · exact absurd (headedAt_concat_length.mp hheaded) (h inner)
  · rintro ⟨j, hj, hheaded, hnone⟩
    refine ⟨j, Nat.lt_succ_of_lt hj, hheaded, ?_⟩
    intro i hji hi
    obtain hlt | rfl := Nat.lt_or_eq_of_le (Nat.le_of_lt_succ hi)
    · exact hnone i hji hlt
    · exact fun other hother => h other (headedAt_concat_length.mp hother)

theorem inRun_concat_of_le (hk : k ≤ doc.length) : InRun (doc ++ [line]) k ↔ InRun doc k :=
  exists_congr fun _ => and_congr_left' (under_concat_of_le hk)

theorem inRun_concat_of_heads (h : Heads line inner) :
    InRun (doc ++ [line]) (doc.length + 1) ↔ Text.Trims inner "run".toList := by
  constructor
  · rintro ⟨other, hunder, hrun⟩
    rw [(under_concat_of_heads h).mp hunder] at hrun
    exact hrun
  · intro hrun
    exact ⟨inner, (under_concat_of_heads h).mpr rfl, hrun⟩

theorem inRun_concat_of_not_heads (h : ∀ inner, ¬ Heads line inner) :
    InRun (doc ++ [line]) (doc.length + 1) ↔ InRun doc doc.length :=
  exists_congr fun _ => and_congr_left' (under_concat_of_not_heads h)

theorem assignedAt_concat_of_lt (hk : k < doc.length) :
    AssignedAt (doc ++ [line]) k key value ↔ AssignedAt doc k key value := by
  rw [AssignedAt, List.getElem?_append_left hk, inRun_concat_of_le (Nat.le_of_lt hk), AssignedAt]

theorem assignedAt_concat_length :
    AssignedAt (doc ++ [line]) doc.length key value
      ↔ InRun doc doc.length ∧ Assigns line key.name value := by
  rw [AssignedAt, exists_concat_length, inRun_concat_of_le (Nat.le_refl _)]

end Positions

/-! ## Reading -/

/-- What is known of a key: the value last assigned to it, or that there is none. -/
def Known (doc : List (List Char)) (key : Key) : Option (List Char) → Prop
  | some value => LastAssigned doc key value
  | none => ∀ k value, ¬ AssignedAt doc k key value

def Reading.valueOf (r : Reading) : Key → Option (List Char)
  | .timeoutMs => r.timeoutMs
  | .maxSteps => r.maxSteps
  | .strictBrackets => r.strictBrackets

/-- The flag and the values are those of the lines read. -/
structure Reading.Records (r : Reading) (doc : List (List Char)) : Prop where
  inRun : r.inRun = true ↔ InRun doc doc.length
  known : ∀ key, Known doc key (r.valueOf key)

section Reading

variable {doc : List (List Char)} {key : Key} {r : Reading} {entry : Entry}

/-- An assignment at the end is the last one. -/
theorem known_of_assignedAt (h : AssignedAt (doc ++ [line]) doc.length key value) :
    Known (doc ++ [line]) key (some value) := by
  refine ⟨doc.length, h, ?_⟩
  intro l hl later hlater
  have hlt := hlater.lt_length
  rw [List.length_append, List.length_singleton] at hlt
  omega

/-- Without one, nothing has changed. -/
theorem Known.concat {known : Option (List Char)} (h : Known doc key known)
    (hnone : ∀ value, ¬ AssignedAt (doc ++ [line]) doc.length key value) :
    Known (doc ++ [line]) key known := by
  -- The new position is the only one at which something could have been added.
  have hlater {l : Nat} {value : List Char} (hl : AssignedAt (doc ++ [line]) l key value) :
      AssignedAt doc l key value := by
    have hlt := hl.lt_length
    rw [List.length_append, List.length_singleton] at hlt
    obtain hlt | rfl := Nat.lt_or_eq_of_le (Nat.le_of_lt_succ hlt)
    · exact (assignedAt_concat_of_lt hlt).mp hl
    · exact absurd hl (hnone value)
  cases known with
  | none => exact fun k value hk => h k value (hlater hk)
  | some value =>
    obtain ⟨k, hk, hlast⟩ := h
    refine ⟨k, (assignedAt_concat_of_lt hk.lt_length).mpr hk, ?_⟩
    exact fun l hl later hassigned => hlast l hl later (hlater hassigned)

theorem valueOf_assign (r : Reading) (name value : List Char) (key : Key) :
    (r.assign name value).valueOf key = if name = key.name then some value else r.valueOf key := by
  unfold Reading.assign
  split
  · next h =>
    obtain rfl := h
    cases key <;> rfl
  · next htimeout =>
    split
    · next h =>
      obtain rfl := h
      cases key <;> rfl
    · next hsteps =>
      split
      · next h =>
        obtain rfl := h
        cases key <;> rfl
      · next hstrict =>
        cases key with
        | timeoutMs => exact (if_neg htimeout).symm
        | maxSteps => exact (if_neg hsteps).symm
        | strictBrackets => exact (if_neg hstrict).symm

theorem inRun_assign (r : Reading) (name value : List Char) :
    (r.assign name value).inRun = r.inRun := by
  unfold Reading.assign
  split
  · rfl
  · split
    · rfl
    · split <;> rfl

theorem records_nothing : ({} : Reading).Records [] where
  inRun := by
    refine ⟨fun h => (nomatch h), ?_⟩
    rintro ⟨inner, ⟨j, hj, -⟩, -⟩
    nomatch hj
  known key := by
    have hnone : ({} : Reading).valueOf key = none := by cases key <;> rfl
    rw [hnone]
    rintro k value ⟨-, line, hline, -⟩
    nomatch hline

/-- **One line more is recorded.** -/
theorem Reading.Records.take (h : r.Records doc) (hentry : Says line entry) :
    (r.take entry).Records (doc ++ [line]) := by
  have hlength : (doc ++ [line]).length = doc.length + 1 := List.length_append
  cases hentry with
  | @heading inner name hheads hname =>
    refine ⟨?_, fun key => (h.known key).concat fun value hassigned => ?_⟩
    · rw [hlength, inRun_concat_of_heads hheads]
      refine decide_eq_true_iff.trans ⟨?_, hname.unique⟩
      rintro rfl
      exact hname
    · exact (assignedAt_concat_length.mp hassigned).2.unheaded inner hheads
  | nothing hheads hassigns =>
    refine ⟨?_, fun key => (h.known key).concat fun value hassigned => ?_⟩
    · rw [hlength, inRun_concat_of_not_heads hheads]
      exact h.inRun
    · exact hassigns _ _ (assignedAt_concat_length.mp hassigned).2
  | @assignment name value hassigns =>
    have hinRun : r.inRun = true ↔ InRun (doc ++ [line]) (doc ++ [line]).length := by
      rw [hlength, inRun_concat_of_not_heads hassigns.unheaded]
      exact h.inRun
    -- Outside of a `[run]` section the line assigns nothing, whatever its key is.
    rw [Reading.take]
    split
    · next hrun =>
      refine ⟨by rw [inRun_assign]; exact hinRun, fun key => ?_⟩
      rw [valueOf_assign]
      split
      · next hname =>
        rw [hname] at hassigns
        exact known_of_assignedAt (assignedAt_concat_length.mpr ⟨h.inRun.mp hrun, hassigns⟩)
      · next hname =>
        refine (h.known key).concat fun other hassigned => hname ?_
        exact (hassigns.unique (assignedAt_concat_length.mp hassigned).2).1
    · next hrun =>
      refine ⟨hinRun, fun key => (h.known key).concat fun other hassigned => hrun ?_⟩
      exact h.inRun.mpr (assignedAt_concat_length.mp hassigned).1

/-- **All lines are recorded.** -/
theorem Reading.Records.foldl (h : r.Records doc) (lines : List (List Char)) :
    ((lines.map Entry.ofLine).foldl Reading.take r).Records (doc ++ lines.map Text.trim) := by
  induction lines generalizing r doc with
  | nil =>
    rw [List.map_nil, List.map_nil, List.append_nil]
    exact h
  | cons line rest ih =>
    have hrest := ih (h.take (says_ofLine line))
    rw [List.append_assoc] at hrest
    exact hrest

end Reading

/-! ## Values -/

/-- The setting that a document makes of a key: what the last value means, or else the default. -/
inductive Reads {β : Type} (doc : List (List Char)) (key : Key) (means : List Char → β → Prop)
    (standard : β) : β → Prop
  | assigned {value : List Char} {result : β} (hlast : LastAssigned doc key value)
      (hmeans : means value result) : Reads doc key means standard result
  | meaningless {value : List Char} (hlast : LastAssigned doc key value)
      (hmeans : ∀ result, ¬ means value result) : Reads doc key means standard standard
  | unassigned (hnone : ∀ k value, ¬ AssignedAt doc k key value) :
      Reads doc key means standard standard

/-- A numeral of at most 64 bits. -/
def MeansLimit (value : List Char) (result : Option Nat) : Prop :=
  ∃ n, result = some n ∧ Numeral.Denotes value n ∧ n < UInt64.size

/-- Exactly one of the two words. -/
def MeansSwitch (value : List Char) (result : Bool) : Prop := value = (toString result).toList

/-- What is known of a key makes its setting, if values are read for what they mean. -/
theorem Known.eq_iff_reads {β : Type} {means : List Char → β → Prop} {read : List Char → β}
    {standard result : β} {doc : List (List Char)} {key : Key} {known : Option (List Char)}
    (h : Known doc key known) (hread : ∀ value result, means value result → read value = result)
    (hstandard : ∀ value, (∀ result, ¬ means value result) → read value = standard) :
    (known.map read).getD standard = result ↔ Reads doc key means standard result := by
  cases known with
  | none =>
    constructor
    · rintro rfl
      exact .unassigned h
    · intro hreads
      cases hreads with
      | assigned hlast _ =>
        obtain ⟨k, hk, -⟩ := hlast
        exact absurd hk (h k _)
      | meaningless _ _ => rfl
      | unassigned _ => rfl
  | some value =>
    show read value = result ↔ _
    constructor
    · rintro rfl
      by_cases hmeans : ∃ result, means value result
      · obtain ⟨result, hresult⟩ := hmeans
        rw [hread value result hresult]
        exact .assigned h hresult
      · have hnone := not_exists.mp hmeans
        rw [hstandard value hnone]
        exact .meaningless h hnone
    · intro hreads
      cases hreads with
      | assigned hlast hmeans =>
        rw [h.value_unique hlast]
        exact hread _ _ hmeans
      | meaningless hlast hmeans =>
        rw [h.value_unique hlast]
        exact hstandard _ hmeans
      | unassigned hnone =>
        obtain ⟨k, hk, -⟩ := h
        exact absurd hk (hnone k _)

theorem Known.limit_iff {doc : List (List Char)} {key : Key} {known : Option (List Char)}
    {result : Option Nat} (h : Known doc key known) :
    known.bind Numeral.parse? = result ↔ Reads doc key MeansLimit none result := by
  have heq : known.bind Numeral.parse? = (known.map Numeral.parse?).getD none := by
    cases known <;> rfl
  rw [heq]
  refine h.eq_iff_reads ?_ ?_
  · rintro value _ ⟨n, rfl, hn⟩
    exact Numeral.parse?_eq_some_iff.mpr hn
  · intro value hnone
    cases hparse : Numeral.parse? value with
    | none => rfl
    | some n => exact absurd ⟨n, rfl, Numeral.parse?_eq_some_iff.mp hparse⟩ (hnone (some n))

theorem parseBool?_eq_some_iff {result : Bool} :
    parseBool? value = some result ↔ MeansSwitch value result := by
  unfold parseBool? MeansSwitch
  split
  · next h =>
    obtain rfl := h
    cases result <;> decide
  · next htrue =>
    split
    · next h =>
      obtain rfl := h
      cases result <;> decide
    · next hfalse =>
      refine ⟨fun h => (nomatch h), fun h => ?_⟩
      cases result with
      | true => exact absurd h htrue
      | false => exact absurd h hfalse

theorem Known.switch_iff {doc : List (List Char)} {key : Key} {known : Option (List Char)}
    {standard result : Bool} (h : Known doc key known) :
    (known.bind parseBool?).getD standard = result
      ↔ Reads doc key MeansSwitch standard result := by
  have heq : (known.bind parseBool?).getD standard
      = (known.map fun value => (parseBool? value).getD standard).getD standard := by
    cases known <;> rfl
  rw [heq]
  refine h.eq_iff_reads ?_ ?_
  · intro value result hmeans
    rw [parseBool?_eq_some_iff.mpr hmeans]
    rfl
  · intro value hnone
    cases hparse : parseBool? value with
    | none => rfl
    | some result => exact absurd (parseBool?_eq_some_iff.mp hparse) (hnone result)

/-! ## Bytes -/

/-- From the byte `first` up to the byte `last`, between characters, stands this part of the
    text. -/
structure SliceOf (text part : String) (first last : Nat) : Prop where
  ordered : first ≤ last
  inRange : last ≤ text.utf8ByteSize
  first_isValid : String.Pos.Raw.IsValid text ⟨first⟩
  last_isValid : String.Pos.Raw.IsValid text ⟨last⟩
  bytes : text.toByteArray.extract first last = part.toByteArray

theorem sliceOf_append (before part after : String) :
    SliceOf (before ++ part ++ after) part before.utf8ByteSize
      (before.utf8ByteSize + part.utf8ByteSize) where
  ordered := Nat.le_add_right _ _
  inRange := by
    rw [String.utf8ByteSize_append, String.utf8ByteSize_append]
    exact Nat.le_add_right _ _
  first_isValid :=
    String.Pos.Raw.isValid_iff_exists_append.mpr ⟨before, part ++ after, String.append_assoc, rfl⟩
  last_isValid := by
    refine String.Pos.Raw.isValid_iff_exists_append.mpr ⟨before ++ part, after, rfl, ?_⟩
    rw [String.Pos.Raw.ext_iff, String.byteIdx_rawEndPos, String.utf8ByteSize_append]
  bytes := by
    rw [String.append_assoc, String.toByteArray_append, String.toByteArray_append]
    have hparts := ByteArray.extract_append_size_add (a := before.toByteArray)
      (b := part.toByteArray ++ after.toByteArray) (i := 0) (j := part.toByteArray.size)
    rw [ByteArray.extract_append_eq_left rfl] at hparts
    exact hparts

/-- **The brackets of a heading are one byte each**, so the text between them is where it is looked
    for. -/
theorem Heads.sliceOf (h : Heads line inner) :
    SliceOf (String.ofList line) (String.ofList inner) 1
      ((String.ofList line).utf8ByteSize - 1) := by
  have hline : String.ofList line = "[" ++ String.ofList inner ++ "]" := by
    rw [h, String.ofList_cons, String.ofList_append, ← String.append_assoc]
    rfl
  have hsize : (String.ofList line).utf8ByteSize - 1 = 1 + (String.ofList inner).utf8ByteSize := by
    rw [hline, String.utf8ByteSize_append, String.utf8ByteSize_append]
    rfl
  rw [hsize, hline]
  exact sliceOf_append "[" (String.ofList inner) "]"

/-- **The last assignment wins.**  Every text is a document.  Each of the three settings is what is
    meant by the value last assigned to its key in a `[run]` section, and its default if that value
    means nothing or there is none.

    A line that begins with `[` and ends with `]` is a heading, and the text in its brackets is what
    stands between its first byte and its last. -/
theorem last_assignment_wins (text : String) :
    (∃ doc, IsDocument text doc)
    ∧ ∀ doc, IsDocument text doc →
      (∀ limit, (ofDocument text).timeoutMs = limit ↔ Reads doc .timeoutMs MeansLimit none limit)
      ∧ (∀ limit, (ofDocument text).maxSteps = limit ↔ Reads doc .maxSteps MeansLimit none limit)
      ∧ (∀ strict, (ofDocument text).strictBrackets = strict
        ↔ Reads doc .strictBrackets MeansSwitch true strict)
      ∧ ∀ line ∈ doc, line.head? = some '[' → line.getLast? = some ']' →
        ∃ inner, Heads line inner
          ∧ SliceOf (String.ofList line) (String.ofList inner) 1
              ((String.ofList line).utf8ByteSize - 1) := by
  refine ⟨⟨_, isDocument_iff.mpr rfl⟩, ?_⟩
  intro doc hdoc
  obtain rfl := isDocument_iff.mp hdoc
  have hrecords := records_nothing.foldl (Text.lines text.toList)
  rw [List.nil_append] at hrecords
  refine ⟨fun limit => ?_, fun limit => ?_, fun strict => ?_, ?_⟩
  · exact (hrecords.known .timeoutMs).limit_iff
  · exact (hrecords.known .maxSteps).limit_iff
  · exact (hrecords.known .strictBrackets).switch_iff
  · intro line _ hfirst hlast
    obtain ⟨inner, hheads⟩ := exists_heads_iff.mpr ⟨hfirst, hlast⟩
    exact ⟨inner, hheads, hheads.sliceOf⟩

/-- A number of steps that is given in one section and taken back in a later one, and a section in
    between that is no business of a run. -/
def overridden : String :=
  "[run]\nmax_steps = 7\n[é]\nmax_steps = 8\n[ run ]\r\n max_steps = \"a=b\"\nstrict_brackets=false"

/-- The number is not there any more, and the name of the section in between is cut out in front of
    its last byte and not in the middle of its letter. -/
theorem later_word_overrides_number :
    ∃ doc, IsDocument overridden doc ∧ Reads doc .maxSteps MeansLimit none none
      ∧ Reads doc .strictBrackets MeansSwitch true false ∧ SliceOf "[é]" "é" 1 3 := by
  obtain ⟨⟨doc, hdoc⟩, hmeaning⟩ := last_assignment_wins overridden
  obtain ⟨-, hsteps, hstrict, hheadings⟩ := hmeaning doc hdoc
  have hmem : ['[', 'é', ']'] ∈ doc := by
    rw [isDocument_iff.mp hdoc]
    decide
  refine ⟨doc, hdoc, (hsteps none).mp (by decide), (hstrict false).mp (by decide), ?_⟩
  obtain ⟨inner, hheads, hslice⟩ := hheadings _ hmem rfl rfl
  obtain rfl : inner = ['é'] := hheads.inner_unique rfl
  exact hslice

end Brainfuck.Settings
