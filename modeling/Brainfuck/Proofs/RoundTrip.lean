/-
  Round trip: settings that are written down are read back as they were.

  Nothing here writes settings but their users, so a WRITER is made up, with all the freedom that a
  user has: a sign and zeros in front of a number, quotes around a value, any order of the keys and
  any ending of the lines.

  1. NUMBERS.  Whatever is put in front of its digits, what is written for a number denotes it
     (`Numeral.denotes_write`), and it denotes no other one.  So it is read as this number if it has
     64 bits, and as nothing at all if it has not (`Numeral.parse?_write`).
  2. LINES.  A value without blanks and quotes comes out of its line as it went in (`ofLine_line`).
  3. ORDER.  Lines of different keys commute, so they may be read in the order in which the writer
     lists them (`foldl_of_perm`).  In this order a key has no value before its own line and keeps
     the one it gets there (`valueOf_foldl_entries`).
  4. VARIABLES.  There the same numerals stand between blanks (`Limit.envNumber?_write`).
-/
import Brainfuck.Proofs.Edits
import Brainfuck.Proofs.Priority

namespace Brainfuck

/-! ## Numbers -/

namespace Numeral

variable {cs : List Char} {n m : Nat}

/-- What may stand in front of the digits of a number. -/
structure Style where
  plus : Bool := false
  zeros : Nat := 0

/-- A number, in decimal. -/
def write (style : Style) (n : Nat) : List Char :=
  (if style.plus then ['+'] else []) ++ (List.replicate style.zeros '0' ++ Nat.toDigits 10 n)

/-- Zeros in front mean nothing. -/
theorem ofDigitChars_zeros (zeros : Nat) (cs : List Char) :
    Nat.ofDigitChars 10 (List.replicate zeros '0' ++ cs) 0 = Nat.ofDigitChars 10 cs 0 := by
  induction zeros with
  | zero => rfl
  | succ zeros ih =>
    rw [List.replicate_succ, List.cons_append, Nat.ofDigitChars_cons]
    exact ih

theorem denotes_write (style : Style) (n : Nat) : Denotes (write style n) n := by
  refine ⟨List.replicate style.zeros '0' ++ Nat.toDigits 10 n, ?_, ?_, ?_, ?_⟩
  · rw [write]
    cases style.plus with
    | false => exact .inl rfl
    | true => exact .inr rfl
  · intro hnil
    exact Nat.toDigits_ne_nil (List.append_eq_nil_iff.mp hnil).2
  · intro c hc
    rcases List.mem_append.mp hc with hzero | hdigit
    · rw [List.eq_of_mem_replicate hzero]
      decide
    · exact Nat.isDigit_of_mem_toDigits (by decide) (by decide) hdigit
  · rw [ofDigitChars_zeros, Nat.ofDigitChars_ten_toDigits]

/-- A numeral has one number. -/
theorem Denotes.unique (h : Denotes cs n) (h' : Denotes cs m) : n = m := by
  -- A sign is no digit.
  have hsign {ds : List Char} : ¬ ∀ c ∈ '+' :: ds, c.isDigit = true := by
    intro hdigits
    exact absurd (hdigits '+' List.mem_cons_self) (by decide)
  obtain ⟨ds, hds, -, hdigits, rfl⟩ := h
  obtain ⟨ds', hds', -, hdigits', rfl⟩ := h'
  rcases hds with rfl | rfl
  · rcases hds' with rfl | rfl
    · rfl
    · exact absurd hdigits hsign
  · rcases hds' with rfl | hcons
    · exact absurd hdigits' hsign
    · rw [(List.cons.inj hcons).2]

/-- **A number is read as itself or not at all.** -/
theorem parse?_write (style : Style) (n : Nat) :
    parse? (write style n) = if n < UInt64.size then some n else none := by
  split
  · next hlt => exact parse?_eq_some_iff.mpr ⟨denotes_write style n, hlt⟩
  · next hge =>
    rw [Option.eq_none_iff_forall_ne_some]
    intro m hparse
    obtain ⟨hdenotes, hlt⟩ := parse?_eq_some_iff.mp hparse
    rw [hdenotes.unique (denotes_write style n)] at hlt
    exact hge hlt

/-- No digit, and no sign, is a quote. -/
theorem Denotes.quote_not_mem (h : Denotes cs n) : '"' ∉ cs := by
  obtain ⟨ds, hds, -, hdigits, -⟩ := h
  have hquote : '"' ∉ ds := fun hmem => nomatch hdigits _ hmem
  rcases hds with rfl | rfl
  · exact hquote
  · rw [List.mem_cons, not_or]
    exact ⟨by decide, hquote⟩

end Numeral

/-! ## Lines -/

namespace Settings

variable {value : List Char}

/-- A value that nothing is taken away from. -/
structure Plain (value : List Char) : Prop where
  ne_nil : value ≠ []
  solid : ∀ c ∈ value, Text.isBlank c = false
  unquoted : '"' ∉ value

theorem plain_write (style : Numeral.Style) (n : Nat) : Plain (Numeral.write style n) where
  ne_nil := (Numeral.denotes_write style n).ne_nil
  solid _ hc := (Numeral.denotes_write style n).not_blank hc
  unquoted := (Numeral.denotes_write style n).quote_not_mem

theorem solid_of_all (h : value.all (fun c => !Text.isBlank c) = true) :
    ∀ c ∈ value, Text.isBlank c = false := by
  simpa using h

theorem plain_toString (b : Bool) : Plain (toString b).toList := by
  cases b with
  | false => exact ⟨by decide, solid_of_all (by decide), by decide⟩
  | true => exact ⟨by decide, solid_of_all (by decide), by decide⟩

/-- A value, between double quotes or bare. -/
def quote (quoted : Bool) (value : List Char) : List Char :=
  if quoted then '"' :: (value ++ ['"']) else value

/-- The line that assigns a value to a key. -/
def Key.line (key : Key) (quoted : Bool) (value : List Char) : List Char :=
  key.name ++ " = ".toList ++ quote quoted value

theorem trim_quote (h : Plain value) (quoted : Bool) :
    Text.trim (quote quoted value) = quote quoted value := by
  refine (Text.Trims.eq_trim ⟨⟨[], [], by simp, by simp, by simp⟩, ?_, ?_⟩).symm
  · intro c hc
    cases quoted with
    | false => exact h.solid c (List.mem_of_mem_head? hc)
    | true =>
      obtain rfl : '"' = c := Option.some.inj hc
      decide
  · intro c hc
    cases quoted with
    | false => exact h.solid c (List.mem_of_getLast? hc)
    | true =>
      have hlast : (quote true value).getLast? = some '"' :=
        List.getLast?_eq_some_iff.mpr ⟨'"' :: value, rfl⟩
      obtain rfl := Option.some.inj (hlast.symm.trans hc)
      decide

theorem unquote_quote (h : Plain value) (quoted : Bool) : unquote (quote quoted value) = value := by
  refine (unquotes_unquote _).value_unique ?_
  cases quoted with
  | false =>
    refine .inr ⟨rfl, ?_⟩
    intro inner hvalue
    have hvalue : value = '"' :: (inner ++ ['"']) := hvalue
    rw [hvalue] at h
    exact h.unquoted List.mem_cons_self
  | true => exact .inl rfl

/-- **A line says what it was written for.** -/
theorem ofLine_line (key : Key) (quoted : Bool) (h : Plain value) :
    Entry.ofLine (key.line quoted value) = .assignment key.name value := by
  have hspaced : Spaced key.name (quote quoted value) (key.line quoted value) := by
    refine ⟨[' '], [' '], ?_, by decide, by decide⟩
    rw [Key.line, List.append_assoc, List.append_assoc]
    rfl
  refine ((ofLine_spaced_iff hspaced (by cases key <;> decide)).mpr ⟨?_, ?_, ?_, ?_⟩).symm
  · cases key <;> decide
  · rintro ⟨hhead, -⟩
    revert hhead
    cases key <;> decide
  · cases key <;> decide
  · rw [trim_quote h, unquote_quote h]

/-! ## Documents -/

/-- How the setting of one key is written. -/
structure Style where
  numeral : Numeral.Style := {}
  quoted : Bool := false

def Key.all : List Key := [.timeoutMs, .maxSteps, .strictBrackets]

/-- The value that is written for a key; for a limit that is absent there is none. -/
def valueFor (style : Key → Style) (s : Settings) : Key → Option (List Char)
  | .timeoutMs => s.timeoutMs.map (Numeral.write (style .timeoutMs).numeral)
  | .maxSteps => s.maxSteps.map (Numeral.write (style .maxSteps).numeral)
  | .strictBrackets => some (toString s.strictBrackets).toList

/-- The lines below the heading. -/
def written (style : Key → Style) (s : Settings) : List (List Char) :=
  Key.all.filterMap fun key => (s.valueFor style key).map (key.line (style key).quoted)

theorem plain_valueFor {style : Key → Style} {s : Settings} {key : Key}
    (h : s.valueFor style key = some value) : Plain value := by
  cases key with
  | timeoutMs =>
    obtain ⟨n, -, rfl⟩ := Option.map_eq_some_iff.mp h
    exact plain_write _ n
  | maxSteps =>
    obtain ⟨n, -, rfl⟩ := Option.map_eq_some_iff.mp h
    exact plain_write _ n
  | strictBrackets =>
    obtain rfl := Option.some.inj h
    exact plain_toString _

/-- The assignments that give values to keys. -/
def entries (values : Key → Option (List Char)) (keys : List Key) : List Entry :=
  keys.filterMap fun key => (values key).map (.assignment key.name)

/-- What the lines say. -/
theorem map_ofLine_written (style : Key → Style) (s : Settings) :
    (s.written style).map Entry.ofLine = entries (s.valueFor style) Key.all := by
  rw [written, entries, List.map_filterMap]
  refine List.filterMap_congr ?_
  intro key _
  rw [Option.map_map]
  refine Option.map_congr ?_
  intro value hvalue
  exact ofLine_line key _ (plain_valueFor hvalue)

theorem Key.name_injective {key key' : Key} (h : key.name = key'.name) : key = key' := by
  cases key <;> cases key' <;> first | rfl | exact absurd h (by decide)

variable {values : Key → Option (List Char)} {keys : List Key} {r : Reading} {key : Key}

/-- **The order of the lines does not matter**: any two of them are of different keys, or the
    same. -/
theorem foldl_of_perm {given : List Entry} (h : given.Perm (entries values keys)) (r : Reading) :
    given.foldl Reading.take r = (entries values keys).foldl Reading.take r := by
  have hentry {x : Entry} (hx : x ∈ given) :
      ∃ key value, values key = some value ∧ .assignment key.name value = x := by
    obtain ⟨key, -, hkey⟩ := List.mem_filterMap.mp (h.mem_iff.mp hx)
    obtain ⟨value, hvalue, heq⟩ := Option.map_eq_some_iff.mp hkey
    exact ⟨key, value, hvalue, heq⟩
  refine h.foldl_eq' ?_ r
  intro x hx y hy r
  obtain ⟨key, value, hvalue, rfl⟩ := hentry hx
  obtain ⟨key', value', hvalue', rfl⟩ := hentry hy
  by_cases hnames : key.name = key'.name
  · obtain rfl := Key.name_injective hnames
    obtain rfl := Option.some.inj (hvalue.symm.trans hvalue')
    rfl
  · exact take_assignment_comm hnames r value value'

/-- **A key that is still to come gets its value**, and keeps it from then on. -/
theorem valueOf_foldl_entries (hrun : r.inRun = true)
    (hkey : r.valueOf key = values key ∨ key ∈ keys ∧ r.valueOf key = none) :
    ((entries values keys).foldl Reading.take r).valueOf key = values key := by
  induction keys generalizing r with
  | nil =>
    rcases hkey with hvalue | ⟨hmem, -⟩
    · exact hvalue
    · nomatch hmem
  | cons next rest ih =>
    cases hnext : values next with
    | none =>
      have hentries : entries values (next :: rest) = entries values rest := by
        rw [entries, List.filterMap_cons, hnext]
        rfl
      rw [hentries]
      refine ih hrun ?_
      rcases hkey with hvalue | ⟨hmem, hnone⟩
      · exact .inl hvalue
      · rcases List.mem_cons.mp hmem with rfl | hrest
        · exact .inl (hnone.trans hnext.symm)
        · exact .inr ⟨hrest, hnone⟩
    | some value =>
      have hentries : entries values (next :: rest)
          = .assignment next.name value :: entries values rest := by
        rw [entries, List.filterMap_cons, hnext]
        rfl
      have htake : r.take (.assignment next.name value) = r.assign next.name value := if_pos hrun
      rw [hentries, List.foldl_cons, htake]
      refine ih ((inRun_assign r _ _).trans hrun) ?_
      rw [valueOf_assign]
      by_cases hnames : next.name = key.name
      · obtain rfl := Key.name_injective hnames
        rw [if_pos rfl]
        exact .inl hnext.symm
      · rw [if_neg hnames]
        rcases hkey with hvalue | ⟨hmem, hnone⟩
        · exact .inl hvalue
        · rcases List.mem_cons.mp hmem with rfl | hrest
          · exact absurd rfl hnames
          · exact .inr ⟨hrest, hnone⟩

/-- What is read of settings that were written. -/
structure ReadsBack (s read : Settings) : Prop where
  /-- All of them, if their limits have 64 bits. -/
  same : (∀ (limit : Limit) (n : Nat), limit.ofSettings s = some n → n < UInt64.size) → read = s
  /-- A limit that has more is none, -/
  tooLarge : ∀ (limit : Limit) (n : Nat), limit.ofSettings s = some n → UInt64.size ≤ n →
    limit.ofSettings read = none
  /-- and that is no matter to the other one, written -/
  fits : ∀ (limit : Limit) (n : Nat), limit.ofSettings s = some n → n < UInt64.size →
    limit.ofSettings read = some n
  /-- or not, -/
  absent : ∀ limit : Limit, limit.ofSettings s = none → limit.ofSettings read = none
  /-- nor to the brackets. -/
  strict : read.strictBrackets = s.strictBrackets

/-- The limits of 64 bits are kept, and the others are not. -/
theorem readsBack_of_filter {s read : Settings}
    (hlimits : ∀ limit : Limit,
      limit.ofSettings read = (limit.ofSettings s).filter (· < UInt64.size))
    (hstrict : read.strictBrackets = s.strictBrackets) : s.ReadsBack read where
  same hall := by
    have hkept (limit : Limit) : limit.ofSettings read = limit.ofSettings s := by
      rw [hlimits]
      cases hn : limit.ofSettings s with
      | none => rfl
      | some n => rw [Option.filter_some, if_pos (decide_eq_true (hall limit n hn))]
    cases read
    cases s
    rw [Settings.mk.injEq]
    exact ⟨hkept .timeoutMs, hkept .maxSteps, hstrict⟩
  tooLarge limit n hn hlarge := by
    rw [hlimits, hn, Option.filter_some, if_neg]
    intro hlt
    exact absurd (of_decide_eq_true hlt) (Nat.not_lt_of_le hlarge)
  fits limit n hn hlt := by
    rw [hlimits, hn, Option.filter_some, if_pos (decide_eq_true hlt)]
  absent limit hn := by
    rw [hlimits, hn]
    rfl
  strict := hstrict

theorem bind_parse?_map_write (style : Numeral.Style) (limit : Option Nat) :
    (limit.map (Numeral.write style)).bind Numeral.parse? = limit.filter (· < UInt64.size) := by
  cases limit with
  | none => rfl
  | some n =>
    rw [Option.map_some, Option.bind_some, Numeral.parse?_write]
    simp [Option.filter]

/-- **Written settings are read back.** -/
theorem readsBack_of_splits {style : Key → Style} {s : Settings} {lines : List (List Char)}
    (hlines : lines.Perm (s.written style)) {text : String}
    (htext : Text.Splits text.toList ("[run]".toList :: lines)) :
    s.ReadsBack (ofDocument text) := by
  have hentries : (lines.map Entry.ofLine).Perm (entries (s.valueFor style) Key.all) := by
    rw [← map_ofLine_written]
    exact hlines.map _
  have hreading : ((Text.lines text.toList).map Entry.ofLine).foldl Reading.take {}
      = (entries (s.valueFor style) Key.all).foldl Reading.take { inRun := true } := by
    rw [← htext.eq_lines, List.map_cons, List.foldl_cons, ← foldl_of_perm hentries]
    rfl
  have hvalue (key : Key) : ((entries (s.valueFor style) Key.all).foldl Reading.take
      { inRun := true }).valueOf key = s.valueFor style key := by
    refine valueOf_foldl_entries rfl (.inr ?_)
    cases key <;> exact ⟨by simp [Key.all], rfl⟩
  rw [ofDocument, hreading]
  generalize (entries (s.valueFor style) Key.all).foldl Reading.take { inRun := true } = r at hvalue
  refine readsBack_of_filter ?_ ?_
  · intro limit
    cases limit with
    | timeoutMs =>
      show (r.valueOf .timeoutMs).bind Numeral.parse? = _
      rw [hvalue]
      exact bind_parse?_map_write _ _
    | maxSteps =>
      show (r.valueOf .maxSteps).bind Numeral.parse? = _
      rw [hvalue]
      exact bind_parse?_map_write _ _
  · show ((r.valueOf .strictBrackets).bind parseBool?).getD true = _
    have hswitch : parseBool? (toString s.strictBrackets).toList = some s.strictBrackets :=
      parseBool?_eq_some_iff.mpr rfl
    rw [hvalue, valueFor, Option.bind_some, hswitch]
    rfl

/-! ### There are such documents -/

/-- These lines, each with a line feed behind it. -/
def document (lines : List (List Char)) : String :=
  String.ofList (lines.flatMap (· ++ ['\n']))

theorem splits_document {lines : List (List Char)}
    (h : ∀ line ∈ lines, '\n' ∉ line ∧ '\r' ∉ line) :
    Text.Splits (document lines).toList lines := by
  rw [document, String.toList_ofList]
  induction lines with
  | nil => exact .nothing
  | cons line rest ih =>
    rw [List.forall_mem_cons] at h
    obtain ⟨⟨hfeed, hreturn⟩, hrest⟩ := h
    rw [List.flatMap_cons, List.append_assoc]
    refine .feed hfeed ?_ (ih hrest)
    intro hlast
    exact hreturn (List.mem_of_getLast? hlast)

/-- The only blanks of a line are spaces. -/
theorem not_mem_line {c : Char} (hblank : Text.isBlank c = true) (hspace : c ≠ ' ')
    (h : Plain value) (key : Key) (quoted : Bool) : c ∉ key.line quoted value := by
  have hname : ∀ d ∈ key.name, Text.isBlank d = false :=
    solid_of_all (by cases key <;> decide)
  have hvalue : ∀ d ∈ quote quoted value, Text.isBlank d = false := by
    cases quoted with
    | false => exact h.solid
    | true =>
      intro d hd
      simp only [quote, if_true, List.mem_cons, List.mem_append, List.not_mem_nil, or_false] at hd
      rcases hd with rfl | hd | rfl
      · rfl
      · exact h.solid d hd
      · rfl
  intro hmem
  rw [Key.line, List.mem_append, List.mem_append] at hmem
  rcases hmem with (hmem | hmem) | hmem
  · nomatch hblank.symm.trans (hname c hmem)
  · have hmem : c ∈ [' ', '=', ' '] := hmem
    simp only [List.mem_cons, List.not_mem_nil, or_false] at hmem
    rcases hmem with rfl | rfl | rfl
    · exact hspace rfl
    · nomatch hblank
    · exact hspace rfl
  · nomatch hblank.symm.trans (hvalue c hmem)

theorem splits_document_written {style : Key → Style} {s : Settings} {lines : List (List Char)}
    (hlines : lines.Perm (s.written style)) :
    Text.Splits (document ("[run]".toList :: lines)).toList ("[run]".toList :: lines) := by
  refine splits_document ?_
  rw [List.forall_mem_cons]
  refine ⟨by decide, ?_⟩
  intro line hline
  obtain ⟨key, -, hkey⟩ := List.mem_filterMap.mp (hlines.mem_iff.mp hline)
  obtain ⟨value, hvalue, rfl⟩ := Option.map_eq_some_iff.mp hkey
  have hplain := plain_valueFor hvalue
  exact ⟨not_mem_line rfl (by decide) hplain key _, not_mem_line rfl (by decide) hplain key _⟩

end Settings

/-! ## Variables -/

/-- A numeral between blanks is all that is in the variable. -/
theorem Limit.envNumber?_write (limit : Limit) {w : World} {before after : List Char}
    (hbefore : Text.Blanks before) (hafter : Text.Blanks after) (style : Numeral.Style) (n : Nat)
    (henv : w.env limit.variableName
      = some (Utf8.encode (String.ofList (before ++ Numeral.write style n ++ after)))) :
    w.envNumber? limit.variableName = if n < UInt64.size then some n else none := by
  have htrim : Text.trim (before ++ Numeral.write style n ++ after) = Numeral.write style n := by
    rw [Text.Padded.trim_eq ⟨before, after, rfl, hbefore, hafter⟩]
    exact Settings.trim_quote (Settings.plain_write style n) false
  rw [World.envNumber?, World.envText?_eq_some_iff.mpr henv, Option.bind_some,
    String.toList_ofList, htrim, Numeral.parse?_write]

/-- **Settings that are written are read back.**  Below the heading of the section there is a line
    for each limit that is not absent and one for the brackets, in any order; a number may have a
    sign and any zeros in front, and every value may have quotes.  Every text of these lines,
    whatever their endings, is read as the settings themselves if their limits have 64 bits.  A
    limit that has more is read as none: it is not replaced by another number.

    In its variable a number is written in the same way, between any blanks.  Unless there is a flag
    it is the limit of the run, and one that is too large leaves it to the document. -/
theorem settings_read_back (s : Settings) (style : Settings.Key → Settings.Style) :
    (∀ lines : List (List Char), lines.Perm (s.written style) →
      Text.Splits (Settings.document ("[run]".toList :: lines)).toList ("[run]".toList :: lines)
      ∧ ∀ text : String, Text.Splits text.toList ("[run]".toList :: lines) →
        s.ReadsBack (Settings.ofDocument text))
    ∧ ∀ (limit : Limit) (n : Nat) (numeral : Numeral.Style) (before after : List Char),
      Text.Blanks before → Text.Blanks after →
      ∀ (flags : Flags) (w : World), limit.ofFlags flags = none →
        w.env limit.variableName
          = some (Utf8.encode (String.ofList (before ++ Numeral.write numeral n ++ after))) →
        (n < UInt64.size → limit.ofSettings (Settings.resolve flags w) = some n)
        ∧ (UInt64.size ≤ n →
          limit.ofSettings (Settings.resolve flags w) = limit.ofSettings w.settings) := by
  constructor
  · intro lines hlines
    exact ⟨Settings.splits_document_written hlines,
      fun text htext => Settings.readsBack_of_splits hlines htext⟩
  · intro limit n numeral before after hbefore hafter flags w hflags henv
    have hnumber := limit.envNumber?_write hbefore hafter numeral n henv
    rw [Limit.resolve_eq, hflags, hnumber]
    constructor
    · intro hlt
      rw [if_pos hlt]
      rfl
    · intro hlarge
      rw [if_neg (Nat.not_lt_of_le hlarge)]
      rfl

/-- The largest number of 64 bits, the next one, and a switch. -/
def Settings.extreme : Settings where
  timeoutMs := some (UInt64.size - 1)
  maxSteps := some UInt64.size
  strictBrackets := false

/-- The first number has a sign, two zeros and quotes, and the switch has quotes. -/
def Settings.adorned : Settings.Key → Settings.Style
  | .timeoutMs => { numeral := { plus := true, zeros := 2 }, quoted := true }
  | .maxSteps => {}
  | .strictBrackets => { quoted := true }

/-- From the last key to the first. -/
def Settings.extremeLines : List (List Char) :=
  ["strict_brackets = \"false\"".toList, "max_steps = 18446744073709551616".toList,
    "timeout_ms = \"+0018446744073709551615\"".toList]

/-- Two kinds of endings, and none behind the last line. -/
def Settings.extremeText : String :=
  "[run]\r\nstrict_brackets = \"false\"\nmax_steps = 18446744073709551616\n"
    ++ "timeout_ms = \"+0018446744073709551615\""

/-- The outspoken world, with a number of 65 bits in a variable. -/
def World.overfull : World where
  env name :=
    if name = "BF_TIMEOUT_MS" then some (Utf8.encode "18446744073709551616\n")
    else World.outspoken.env name
  file := World.outspoken.file

/-- The first number is read back and the second is none.  Settings with a seven are read back as
    they are.  Between blanks in a variable seven is seven too, and a number that is too large
    leaves the word to the document. -/
theorem largest_limit_is_read_and_next_is_none :
    Limit.timeoutMs.ofSettings (Settings.ofDocument Settings.extremeText) = some (UInt64.size - 1)
      ∧ Limit.maxSteps.ofSettings (Settings.ofDocument Settings.extremeText) = none
      ∧ (Settings.ofDocument Settings.extremeText).strictBrackets = false
      ∧ Settings.ofDocument (Settings.document
          ["[run]".toList, "strict_brackets = true".toList, "max_steps = 007".toList])
        = { maxSteps := some 7 }
      ∧ Limit.maxSteps.ofSettings (Settings.resolve {} .outspoken) = some 7
      ∧ Limit.timeoutMs.ofSettings (Settings.resolve {} .overfull) = some 5 := by
  obtain ⟨hdocuments, hvariables⟩ := settings_read_back .extreme Settings.adorned
  have hlines : Settings.extremeLines.Perm (Settings.extreme.written Settings.adorned) := by
    decide +kernel
  have htext : Text.Splits Settings.extremeText.toList ("[run]".toList :: Settings.extremeLines) :=
    Text.splits_iff.mpr (by decide +kernel)
  have hreads := (hdocuments _ hlines).2 _ htext
  refine ⟨hreads.fits .timeoutMs _ rfl (by decide), hreads.tooLarge .maxSteps _ rfl (by decide),
    hreads.strict, ?_, ?_, ?_⟩
  · obtain ⟨hsevens, -⟩ := settings_read_back { maxSteps := some 7 }
      fun _ => { numeral := { zeros := 2 } }
    obtain ⟨hwritten, hread⟩ :=
      hsevens ["strict_brackets = true".toList, "max_steps = 007".toList] (by decide +kernel)
    refine (hread _ hwritten).same ?_
    rintro (_ | _) n hn
    · nomatch hn
    · obtain rfl := Option.some.inj hn
      decide
  · have hseven : " +7\n"
        = String.ofList ([' '] ++ Numeral.write { plus := true } 7 ++ ['\n']) := by
      decide
    have henv : World.outspoken.env "BF_MAX_STEPS" = some (Utf8.encode _) :=
      congrArg (some ∘ Utf8.encode) hseven
    exact (hvariables .maxSteps 7 _ _ _ (by decide) (by decide) {} .outspoken rfl henv).1
      (by decide)
  · have hnext : "18446744073709551616\n"
        = String.ofList ([] ++ Numeral.write {} UInt64.size ++ ['\n']) := by
      decide +kernel
    have henv : World.overfull.env "BF_TIMEOUT_MS" = some (Utf8.encode _) :=
      congrArg (some ∘ Utf8.encode) hnext
    have hdocument : World.overfull.Document Settings.outspoken :=
      ⟨Path.ofText "c", .named rfl, if_pos rfl⟩
    have hfive := (hvariables .timeoutMs UInt64.size _ _ _ (by decide) (by decide) {} .overfull rfl
      henv).2 (by decide)
    rw [hfive, World.settings_of_document hdocument]
    decide

end Brainfuck
