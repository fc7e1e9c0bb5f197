/-
  Edits: what may be done to a settings document without any effect.

  What a document says is a matter of a few lines; the rest is LAYOUT.  Layout is what an editor may
  touch, and here is a list of what it may do:

  1. to lines (`Change`): blanks at the ends of a line or around the `=` of an assignment come and
     go; so do blank lines and comments, lines in sections that are no business of a run, and
     assignments of keys that nobody asks for; two assignments of different keys change places;
  2. to the whole text (`Edit`): carriage returns in front of line feeds, a line feed at the end.

  None of this can be seen in the settings, in any number and any order.  A text is read as its
  lines are, one after another (`scan_join`).  So nothing below a change has to be looked at: it is
  enough that what has been read ABOVE goes on to the same state with the old lines and with the new
  ones, the flag of the section included (`Change.read_eq`).  In most changes the lines SAY the
  same.  Whether a line is an assignment at all is seen from its two ends, and blanks around the
  first `=` reach neither of them (`ofLine_spaced_iff`).
-/
import Brainfuck.Proofs.Assignments
import Mathlib.Logic.Relation

namespace Brainfuck.Settings

/-! ## Texts and their lines -/

/-- A line of a text, without the line feed behind it. -/
structure Line where
  chars : List Char
  unbroken : '\n' ∉ chars

/-- The text of these lines, with a line feed between any two of them. -/
def join (lines : List Line) : String := String.ofList (['\n'].intercalate (lines.map Line.chars))

theorem toList_join_cons (line next : Line) (rest : List Line) :
    (join (line :: next :: rest)).toList = line.chars ++ '\n' :: (join (next :: rest)).toList := by
  rw [join, join, String.toList_ofList, String.toList_ofList, List.map_cons, List.map_cons,
    List.intercalate_cons_cons, List.append_assoc]
  rfl

/-- Every text has lines. -/
theorem exists_join (text : String) : ∃ line rest, text = join (line :: rest) := by
  have hchars (cs : List Char) : ∃ line rest, cs = (join (line :: rest)).toList := by
    induction cs using Text.lines_induction with
    | last line hline =>
      refine ⟨⟨line, hline⟩, [], ?_⟩
      rw [join, String.toList_ofList, List.map_singleton, List.intercalate_singleton]
    | feed line rest hline ih =>
      obtain ⟨next, others, rfl⟩ := ih
      refine ⟨⟨line, hline⟩, next :: others, ?_⟩
      rw [toList_join_cons]
  obtain ⟨line, rest, hlines⟩ := hchars text.toList
  exact ⟨line, rest, String.toList_inj.mp hlines⟩

/-! ## Edits -/

/-- What the line says, with blanks around it or without. -/
def Line.Says (line : Line) (entry : Entry) : Prop :=
  ∃ core, Text.Trims line.chars core ∧ Settings.Says core entry

/-- Nothing but blanks, or a comment. -/
def Line.Idle (line : Line) : Prop :=
  Text.Blanks line.chars
    ∨ ∃ before rest, line.chars = before ++ '#' :: rest ∧ Text.Blanks before

/-- A line that comes below these is in a `[run]` section. -/
def BelowRun (above : List Line) : Prop :=
  ∃ doc, List.Forall₂ Text.Trims (above.map Line.chars) doc ∧ InRun doc doc.length

/-- Blanks, if any, stand around the `=` between the two texts. -/
def Spaced (name rest cs : List Char) : Prop :=
  ∃ before after, cs = name ++ before ++ '=' :: (after ++ rest)
    ∧ Text.Blanks before ∧ Text.Blanks after

/-- What may be done to some lines, below others. -/
inductive Change (above : List Line) : List Line → List Line → Prop
  | ends {line line' : Line} {core : List Char} (h : Text.Padded core line.chars)
      (h' : Text.Padded core line'.chars) : Change above [line] [line']
  | around {line line' : Line} {key value name rest : List Char}
      (hentry : line.Says (.assignment key value)) (hname : '=' ∉ name)
      (h : Spaced name rest line.chars) (h' : Spaced name rest line'.chars) :
      Change above [line] [line']
  | idle {line : Line} (h : line.Idle) : Change above [] [line]
  | outside {line : Line} (habove : ¬ BelowRun above)
      (hline : ∀ name, ¬ line.Says (.header name)) : Change above [line] []
  /-- In whichever section the key is. -/
  | unknown {line : Line} {key value : List Char} (hentry : line.Says (.assignment key value))
      (hkey : ∀ known : Key, key ≠ known.name) : Change above [line] []
  /-- One key alone may not: its last assignment is the one that counts. -/
  | exchange {line line' : Line} {key value key' value' : List Char}
      (hentry : line.Says (.assignment key value)) (hentry' : line'.Says (.assignment key' value'))
      (hkeys : key ≠ key') : Change above [line, line'] [line', line]

/-- With a carriage return in front of every line feed. -/
def withReturns (cs : List Char) : List Char :=
  cs.flatMap fun c => if c = '\n' then ['\r', '\n'] else [c]

/-- What may be done to a document. -/
inductive Edit : String → String → Prop
  | change {above old new : List Line} (h : Change above old new) (below : List Line) :
      Edit (join (above ++ old ++ below)) (join (above ++ new ++ below))
  | returns (text : String) : Edit text (String.ofList (withReturns text.toList))
  | feed (text : String) : Edit text (text ++ "\n")

/-! ## One line -/

section Line

variable {line : Line} {cs cs' before after key value : List Char} {entry : Entry}

theorem Line.says_iff : line.Says entry ↔ entry = Entry.ofLine line.chars := by
  rw [← says_trim_iff, Line.Says]
  constructor
  · rintro ⟨core, htrims, hentry⟩
    rw [← htrims.eq_trim]
    exact hentry
  · intro hentry
    exact ⟨_, Text.trims_trim _, hentry⟩

/-- **A line is taken without the blanks at its ends.** -/
theorem ofLine_congr (h : Text.trim cs = Text.trim cs') : Entry.ofLine cs = Entry.ofLine cs' := by
  unfold Entry.ofLine
  rw [h]

theorem ofLine_concat_return (cs : List Char) :
    Entry.ofLine (cs ++ ['\r']) = Entry.ofLine cs :=
  ofLine_congr (Text.Padded.trim_eq ⟨[], ['\r'], rfl, by decide, by decide⟩)

theorem ofLine_dropFinal_return (cs : List Char) :
    Entry.ofLine (Text.dropFinal '\r' cs) = Entry.ofLine cs := by
  rw [Text.dropFinal]
  split
  · next hreturn =>
    obtain ⟨init, rfl⟩ := List.getLast?_eq_some_iff.mp hreturn
    rw [List.dropLast_concat, ofLine_concat_return]
  · rfl

theorem Line.Idle.ofLine_eq (h : line.Idle) : Entry.ofLine line.chars = .nothing := by
  rcases h with hblanks | ⟨before, rest, hline, hbefore⟩
  · have htrim : Text.trim line.chars = Text.trim [] := by
      refine Text.Padded.trim_eq ⟨line.chars, [], ?_, hblanks, by decide⟩
      rw [List.append_nil, List.append_nil]
    rw [ofLine_congr htrim]
    rfl
  · have htrim : Text.trim line.chars = '#' :: Text.trimEnd rest := by
      rw [hline, Text.trim_append_cons (by decide), Text.trimStart,
        List.dropWhile_eq_nil_iff.mpr hbefore, List.nil_append]
    rw [Entry.ofLine, htrim]
    rfl

/-! ### Around the first `=` -/

theorem head?_append_cons_iff {c d : Char} (h : d ≠ c) :
    (before ++ d :: after).head? = some c ↔ before.head? = some c := by
  cases before with
  | nil => simp [h]
  | cons _ _ => rfl

theorem getLast?_append_cons_iff {c d : Char} (h : d ≠ c) :
    (before ++ d :: after).getLast? = some c ↔ after.getLast? = some c := by
  cases after with
  | nil => simp [h]
  | cons _ _ => simp [List.getLast?_append, List.getLast?_cons]

/-- Whether a line with a `=` in it assigns anything is seen from its two ends, and what it assigns
    from the texts on both sides of the `=`, without the blanks around them. -/
theorem ofLine_eq_assignment_iff (hbefore : '=' ∉ before) :
    .assignment key value = Entry.ofLine (before ++ '=' :: after)
      ↔ (Text.trimStart before).head? ≠ some '#'
        ∧ ¬ ((Text.trimStart before).head? = some '['
          ∧ (Text.trimEnd after).getLast? = some ']')
        ∧ key = Text.trim before ∧ value = unquote (Text.trim after) := by
  rw [← says_trim_iff, Text.trim_append_cons (by decide)]
  have hcuts : Cuts (Text.trimStart before ++ '=' :: Text.trimEnd after)
      (Text.trimStart before) (Text.trimEnd after) :=
    ⟨rfl, fun hmem => hbefore ((List.dropWhile_sublist _).mem hmem)⟩
  -- A `=` is not among the characters that are looked for at the ends.
  have hplain : (Text.trimStart before ++ '=' :: Text.trimEnd after).head? ≠ some '#'
      ↔ (Text.trimStart before).head? ≠ some '#' := (head?_append_cons_iff (by decide)).not
  have hheads : (∃ inner, Heads (Text.trimStart before ++ '=' :: Text.trimEnd after) inner)
      ↔ (Text.trimStart before).head? = some '[' ∧ (Text.trimEnd after).getLast? = some ']' := by
    rw [exists_heads_iff, head?_append_cons_iff (by decide), getLast?_append_cons_iff (by decide)]
  constructor
  · rintro (_ | hassigns)
    obtain ⟨before', after', raw, hcuts', hkey, hraw, hvalue⟩ := hassigns.cut
    obtain ⟨rfl, rfl⟩ := hcuts.unique hcuts'
    refine ⟨hplain.mp hassigns.plain, hheads.not.mp (not_exists.mpr hassigns.unheaded), ?_, ?_⟩
    · rw [hkey.eq_trim, Text.trim_trimStart]
    · rw [hvalue.value_unique (unquotes_unquote raw), hraw.eq_trim, Text.trim_trimEnd]
  · rintro ⟨hcomment, hheading, rfl, rfl⟩
    refine .assignment ⟨hplain.mpr hcomment, not_exists.mp (hheads.not.mpr hheading), ?_⟩
    rw [← Text.trim_trimStart before, ← Text.trim_trimEnd after]
    exact ⟨_, _, _, hcuts, Text.trims_trim _, Text.trims_trim _, unquotes_unquote _⟩

theorem ofLine_spaced_iff {name rest : List Char} (h : Spaced name rest cs) (hname : '=' ∉ name) :
    .assignment key value = Entry.ofLine cs
      ↔ (Text.trimStart name).head? ≠ some '#'
        ∧ ¬ ((Text.trimStart name).head? = some '['
          ∧ (Text.trimEnd rest).getLast? = some ']')
        ∧ key = Text.trim name ∧ value = unquote (Text.trim rest) := by
  obtain ⟨before, after, rfl, hbefore, hafter⟩ := h
  have hleft : '=' ∉ name ++ before := by
    rw [List.mem_append, not_or]
    exact ⟨hname, fun hmem => nomatch hbefore _ hmem⟩
  have hkey : Text.trim (name ++ before) = Text.trim name :=
    Text.Padded.trim_eq ⟨[], before, rfl, by decide, hbefore⟩
  have hvalue : Text.trim (after ++ rest) = Text.trim rest :=
    Text.Padded.trim_eq ⟨after, [], (List.append_nil _).symm, hafter, by decide⟩
  rw [ofLine_eq_assignment_iff hleft, Text.head?_trimStart_append hbefore,
    Text.getLast?_trimEnd_append hafter, hkey, hvalue]

end Line

/-! ## Reading on -/

/-- The state of reading, some lines further down. -/
def Reading.read (r : Reading) (lines : List Line) : Reading :=
  ((lines.map Line.chars).map Entry.ofLine).foldl Reading.take r

/-- The state of reading, behind a text. -/
def Reading.scan (r : Reading) (cs : List Char) : Reading :=
  ((Text.lines cs).map Entry.ofLine).foldl Reading.take r

section Reading

variable {r : Reading} {line : List Char} {key key' value value' : List Char}

theorem read_append (r : Reading) (above below : List Line) :
    r.read (above ++ below) = (r.read above).read below := by
  rw [Reading.read, List.map_append, List.map_append, List.foldl_append]
  rfl

theorem scan_of_not_mem (hline : '\n' ∉ line) : r.scan line = r.take (Entry.ofLine line) := by
  cases line with
  | nil => rfl
  | cons c rest =>
    rw [Reading.scan, Text.lines_of_not_mem (List.cons_ne_nil c rest) hline]
    rfl

theorem scan_append_feed (hline : '\n' ∉ line) (rest : List Char) :
    r.scan (line ++ '\n' :: rest) = (r.take (Entry.ofLine line)).scan rest := by
  rw [Reading.scan, Text.lines_append_feed hline, List.map_cons, List.foldl_cons,
    ofLine_dropFinal_return]
  rfl

/-- **A text is read as its lines are.** -/
theorem scan_join (r : Reading) (lines : List Line) :
    r.scan (join lines).toList = r.read lines := by
  induction lines generalizing r with
  | nil => rfl
  | cons line rest ih =>
    -- The last line has no line feed behind it.
    cases rest with
    | nil =>
      rw [join, String.toList_ofList, List.map_singleton, List.intercalate_singleton,
        scan_of_not_mem line.unbroken]
      rfl
    | cons next others =>
      rw [toList_join_cons, scan_append_feed line.unbroken, ih]
      rfl

theorem withReturns_of_not_mem (hline : '\n' ∉ line) : withReturns line = line := by
  have hkeep : ∀ c ∈ line, (if c = '\n' then ['\r', '\n'] else [c]) = [c] := by
    intro c hc
    refine if_neg ?_
    rintro rfl
    exact hline hc
  rw [withReturns, List.flatMap_congr hkeep, List.flatMap_singleton']

theorem scan_withReturns (r : Reading) (cs : List Char) : r.scan (withReturns cs) = r.scan cs := by
  induction cs using Text.lines_induction generalizing r with
  | last line hline => rw [withReturns_of_not_mem hline]
  | feed line rest hline ih =>
    -- If the line has a carriage return at its end already, it keeps one of them: a blank.
    have hreturn : '\n' ∉ line ++ ['\r'] := by
      rw [List.mem_append, not_or]
      exact ⟨hline, by decide⟩
    have hcut : withReturns (line ++ '\n' :: rest)
        = (line ++ ['\r']) ++ '\n' :: withReturns rest := by
      rw [withReturns, List.flatMap_append, ← withReturns, withReturns_of_not_mem hline,
        List.append_assoc]
      rfl
    rw [hcut, scan_append_feed hreturn, scan_append_feed hline, ofLine_concat_return, ih]

theorem scan_concat_feed (r : Reading) (cs : List Char) : r.scan (cs ++ ['\n']) = r.scan cs := by
  induction cs using Text.lines_induction generalizing r with
  | last line hline =>
    rw [scan_append_feed hline, scan_of_not_mem hline]
    rfl
  | feed line rest hline ih =>
    rw [List.append_assoc, List.cons_append, scan_append_feed hline, scan_append_feed hline, ih]

theorem belowRun_iff {above : List Line} :
    BelowRun above ↔ (({} : Reading).read above).inRun = true := by
  have hrecords := records_nothing.foldl (above.map Line.chars)
  rw [List.nil_append] at hrecords
  simp only [BelowRun, forall₂_trims_iff, exists_eq_left]
  exact hrecords.inRun.symm

/-- Readings are the same if they have the same flag and the same values. -/
theorem reading_ext {r r' : Reading} (hinRun : r.inRun = r'.inRun)
    (hvalues : ∀ key, r.valueOf key = r'.valueOf key) : r = r' := by
  cases r
  cases r'
  rw [Reading.mk.injEq]
  exact ⟨hinRun, hvalues .timeoutMs, hvalues .maxSteps, hvalues .strictBrackets⟩

theorem assign_of_unknown (hkey : ∀ known : Key, key ≠ known.name) (r : Reading)
    (value : List Char) : r.assign key value = r := by
  refine reading_ext (inRun_assign r key value) fun known => ?_
  rw [valueOf_assign, if_neg (hkey known)]

theorem assign_comm (hkeys : key ≠ key') (r : Reading) (value value' : List Char) :
    (r.assign key value).assign key' value' = (r.assign key' value').assign key value := by
  refine reading_ext ?_ fun known => ?_
  · simp only [inRun_assign]
  · simp only [valueOf_assign]
    split
    · next hname' =>
      rw [if_neg]
      rintro rfl
      exact hkeys hname'.symm
    · rfl

theorem take_assignment_comm (hkeys : key ≠ key') (r : Reading) (value value' : List Char) :
    (r.take (.assignment key value)).take (.assignment key' value')
      = (r.take (.assignment key' value')).take (.assignment key value) := by
  cases hrun : r.inRun with
  | false => simp [Reading.take, hrun]
  | true => simp [Reading.take, hrun, inRun_assign, assign_comm hkeys]

/-- **A change of lines cannot be told from behind them.** -/
theorem Change.read_eq {above old new : List Line} (h : Change above old new) :
    (({} : Reading).read above).read old = (({} : Reading).read above).read new := by
  generalize hr : ({} : Reading).read above = r
  cases h with
  | @ends line line' core hpadded hpadded' =>
    show r.take (Entry.ofLine line.chars) = r.take (Entry.ofLine line'.chars)
    rw [ofLine_congr (hpadded.trim_eq.trans hpadded'.trim_eq.symm)]
  | @around line line' key value name rest hentry hname hspaced hspaced' =>
    have hassigns := Line.says_iff.mp hentry
    have hassigns' := (ofLine_spaced_iff hspaced' hname).mpr
      ((ofLine_spaced_iff hspaced hname).mp hassigns)
    show r.take (Entry.ofLine line.chars) = r.take (Entry.ofLine line'.chars)
    rw [← hassigns, ← hassigns']
  | @idle line hidle =>
    show r = r.take (Entry.ofLine line.chars)
    rw [hidle.ofLine_eq]
    rfl
  | @outside line habove hline =>
    show r.take (Entry.ofLine line.chars) = r
    -- The flag is down, so whatever the line assigns is passed over.
    rw [belowRun_iff, hr] at habove
    cases hentry : Entry.ofLine line.chars with
    | header name => exact absurd (Line.says_iff.mpr hentry.symm) (hline name)
    | assignment key value => exact if_neg habove
    | nothing => rfl
  | @unknown line key value hentry hkey =>
    show r.take (Entry.ofLine line.chars) = r
    rw [← Line.says_iff.mp hentry, Reading.take, assign_of_unknown hkey, ite_self]
  | @exchange line line' key value key' value' hentry hentry' hkeys =>
    show (r.take (Entry.ofLine line.chars)).take (Entry.ofLine line'.chars)
      = (r.take (Entry.ofLine line'.chars)).take (Entry.ofLine line.chars)
    rw [← Line.says_iff.mp hentry, ← Line.says_iff.mp hentry', take_assignment_comm hkeys]

theorem Edit.ofDocument_eq {text text' : String} (h : Edit text text') :
    ofDocument text = ofDocument text' := by
  have hscan : ({} : Reading).scan text.toList = ({} : Reading).scan text'.toList := by
    cases h with
    | change hchange below =>
      simp only [scan_join, read_append, hchange.read_eq]
    | returns => rw [String.toList_ofList, scan_withReturns]
    | feed =>
      rw [String.toList_append]
      exact (scan_concat_feed _ _).symm
  exact congrArg ofReading hscan

end Reading

/-- **Layout has no effect.**  Every text has lines, and whatever is done to it by edits, forth and
    back, the settings stay the same. -/
theorem layout_has_no_effect :
    (∀ text, ∃ line rest, text = join (line :: rest))
    ∧ ∀ text text', Relation.EqvGen Edit text text' → ofDocument text = ofDocument text' := by
  refine ⟨exists_join, ?_⟩
  intro text text' hedits
  induction hedits with
  | rel _ _ hedit => exact hedit.ofDocument_eq
  | refl _ => rfl
  | symm _ _ _ ih => exact ih.symm
  | trans _ _ _ _ _ ih ih' => exact ih.trans ih'

/-- The order of two assignments of one key is not layout. -/
example :
    ofDocument "[run]\nmax_steps=7\nmax_steps=8"
      ≠ ofDocument "[run]\nmax_steps=8\nmax_steps=7" := by
  decide

def Line.of (text : String) (h : '\n' ∉ text.toList := by decide) : Line := ⟨text.toList, h⟩

/-- A number of steps outside of every section, and a key that nobody asks for. -/
def sprawling : String := "max_steps = 9\n[run]\nmax_steps =7\ncolour = red"

/-- What is left in the section, with a carriage return and a line feed behind every line. -/
def tidied : String := "[run]\r\nmax_steps = 7\r\n"

/-- The number in the section is what has been meant before and after. -/
theorem tidying_has_no_effect :
    Relation.EqvGen Edit sprawling tidied ∧ ofDocument sprawling = ofDocument tidied
      ∧ ofDocument tidied = { maxSteps := some 7 } := by
  have hstray : Edit sprawling (join [.of "[run]", .of "max_steps =7", .of "colour = red"]) := by
    have hchange : Change [] [.of "max_steps = 9"] [] := by
      refine .outside ?_ ?_
      · rw [belowRun_iff]
        decide
      · intro name hentry
        nomatch Line.says_iff.mp hentry
    exact .change hchange [.of "[run]", .of "max_steps =7", .of "colour = red"]
  have hcolour : Edit (join [.of "[run]", .of "max_steps =7", .of "colour = red"])
      (join [.of "[run]", .of "max_steps =7"]) := by
    have hentry : Line.Says (.of "colour = red") (.assignment "colour".toList "red".toList) :=
      Line.says_iff.mpr (by decide)
    have hkey : ∀ known : Key, "colour".toList ≠ known.name := by
      intro known
      cases known <;> decide
    have hchange : Change [.of "[run]", .of "max_steps =7"] [.of "colour = red"] [] :=
      .unknown hentry hkey
    exact .change hchange []
  have hblank : Edit (join [.of "[run]", .of "max_steps =7"])
      (join [.of "[run]", .of "max_steps = 7"]) := by
    have hentry : Line.Says (.of "max_steps =7") (.assignment "max_steps".toList "7".toList) :=
      Line.says_iff.mpr (by decide)
    have hspaced : Spaced "max_steps".toList ['7'] (Line.of "max_steps =7").chars :=
      ⟨[' '], [], rfl, by decide, by decide⟩
    have hspaced' : Spaced "max_steps".toList ['7'] (Line.of "max_steps = 7").chars :=
      ⟨[' '], [' '], rfl, by decide, by decide⟩
    have hchange : Change [.of "[run]"] [.of "max_steps =7"] [.of "max_steps = 7"] :=
      .around hentry (by decide) hspaced hspaced'
    exact .change hchange []
  have hedits : Relation.EqvGen Edit sprawling tidied :=
    .trans _ _ _ (.rel _ _ hstray) <| .trans _ _ _ (.rel _ _ hcolour) <|
      .trans _ _ _ (.rel _ _ hblank) <| .trans _ _ _ (.rel _ _ (.feed _)) <|
      .rel _ _ (.returns _)
  exact ⟨hedits, layout_has_no_effect.2 _ _ hedits, by decide⟩

end Brainfuck.Settings
