/-
  Priority: each setting is decided by the first of its sources that says anything.

  The SOURCES of a number are a flag, a variable and the document, in this order.  What a source says
  is stated on the evidence itself (`Limit.Says`): a variable says a number if its bytes are a text
  that is a numeral between blanks, and the document says one if there is a document and its last
  word is a number.  A source that says nothing passes the question on, whatever else is in it.

  The document is another matter.  Which FILE it is in is decided before anybody looks into it
  (`World.Selects`), so a file that is not there, or is no text, is not replaced by another one: it
  is as if it were empty.

  A source is CONSULTED if those before it say nothing.  All that is not consulted may be different,
  and the answer is the same (`Limit.resolve_eq_of_agree`).
-/
import Brainfuck.Proofs.Numerals
import Brainfuck.Resolution

namespace Brainfuck

/-! ## The document -/

namespace World

variable {w w' : World} {path : Path} {text : String}

/-- The file in which the document is looked for. -/
inductive Selects (w : World) : Path → Prop
  /-- A file that is named counts, and no other. -/
  | named {path : Path} (hnamed : w.env "BF_CONFIG" = some path) : Selects w path
  | xdg {directory : String} (hnamed : w.env "BF_CONFIG" = none)
      (hxdg : w.env "XDG_CONFIG_HOME" = some (Utf8.encode directory)) :
      Selects w (Path.join (Path.ofText directory) "bf.toml")
  | home {home : List UInt8} (hnamed : w.env "BF_CONFIG" = none)
      (hxdg : ∀ directory, w.env "XDG_CONFIG_HOME" ≠ some (Utf8.encode directory))
      (hhome : w.env "HOME" = some home) :
      Selects w (Path.join (Path.join (if home.isEmpty then Path.ofText "/" else home) ".config")
        "bf.toml")

/-- A file can be read, and this text is in it. -/
def Holds (w : World) (path : Path) (text : String) : Prop :=
  w.file path = .ok (Utf8.encode text)

/-- There is a document, with this text. -/
def Document (w : World) (text : String) : Prop := ∃ path, w.Selects path ∧ w.Holds path text

/-- A variable is set to a text. -/
theorem envText?_eq_some_iff {name : String} :
    w.envText? name = some text ↔ w.env name = some (Utf8.encode text) := by
  rw [envText?, Option.bind_eq_some_iff]
  constructor
  · rintro ⟨bytes, henv, hdecode⟩
    rw [henv, Utf8.decode?_eq_some_iff.mp hdecode]
  · intro henv
    exact ⟨_, henv, Utf8.decode?_eq_some_iff.mpr rfl⟩

theorem settingsPath?_eq_some_iff : w.settingsPath? = some path ↔ w.Selects path := by
  constructor
  · intro h
    rw [settingsPath?] at h
    split at h
    · next hnamed =>
      obtain rfl := Option.some.inj h
      exact .named hnamed
    · next hnamed =>
      rw [configDirectory?] at h
      split at h
      · next directory hxdg =>
        obtain rfl := Option.some.inj h
        exact .xdg hnamed (envText?_eq_some_iff.mp hxdg)
      · next hxdg =>
        rw [Option.map_map] at h
        obtain ⟨home, hhome, rfl⟩ := Option.map_eq_some_iff.mp h
        refine .home hnamed ?_ hhome
        intro directory hdirectory
        nomatch hxdg.symm.trans (envText?_eq_some_iff.mpr hdirectory)
  · rintro (hnamed | ⟨hnamed, hxdg⟩ | ⟨hnamed, hxdg, hhome⟩)
    · rw [settingsPath?, hnamed]
    · rw [settingsPath?, hnamed, configDirectory?, envText?_eq_some_iff.mpr hxdg]
      rfl
    · have hnone : w.envText? "XDG_CONFIG_HOME" = none := by
        cases htext : w.envText? "XDG_CONFIG_HOME" with
        | none => rfl
        | some directory => exact absurd (envText?_eq_some_iff.mp htext) (hxdg directory)
      rw [settingsPath?, hnamed, configDirectory?, hnone, hhome]
      rfl

theorem readText_eq_ok_iff : w.readText path = .ok text ↔ w.Holds path text := by
  rw [readText, Holds]
  cases w.file path with
  | error e => exact ⟨fun h => (nomatch h), fun h => (nomatch h)⟩
  | ok bytes =>
    simp only [Except.ok.injEq, ← Utf8.decode?_eq_some_iff]
    cases Utf8.decode? bytes <;> simp

/-- The settings are those of the document, -/
theorem settings_of_document (h : w.Document text) : w.settings = Settings.ofDocument text := by
  obtain ⟨path, hselects, hholds⟩ := h
  rw [settings, settingsPath?_eq_some_iff.mpr hselects]
  simp only [readText_eq_ok_iff.mpr hholds]

/-- and without one they are the defaults. -/
theorem settings_of_no_document (h : ∀ text, ¬ w.Document text) : w.settings = {} := by
  rw [settings]
  cases hpath : w.settingsPath? with
  | none => rfl
  | some path =>
    cases hread : w.readText path with
    | error e => simp only [hread]
    | ok text =>
      exact absurd ⟨path, settingsPath?_eq_some_iff.mp hpath, readText_eq_ok_iff.mp hread⟩ (h text)

/-- Both worlds look for the document in the same file, if in any, and it is the same file. -/
structure SameDocument (w w' : World) : Prop where
  selects : ∀ path, w.Selects path ↔ w'.Selects path
  file : ∀ path, w.Selects path → w.file path = w'.file path

theorem SameDocument.settings_eq (h : w.SameDocument w') : w.settings = w'.settings := by
  have hdocument (text : String) : w.Document text ↔ w'.Document text := by
    constructor
    · rintro ⟨path, hselects, hholds⟩
      refine ⟨path, (h.selects path).mp hselects, ?_⟩
      rw [Holds, ← h.file path hselects]
      exact hholds
    · rintro ⟨path, hselects, hholds⟩
      have hselects := (h.selects path).mpr hselects
      refine ⟨path, hselects, ?_⟩
      rw [Holds, h.file path hselects]
      exact hholds
  by_cases hany : ∃ text, w.Document text
  · obtain ⟨text, htext⟩ := hany
    rw [settings_of_document htext, settings_of_document ((hdocument text).mp htext)]
  · have hnone (text : String) : ¬ w.Document text := fun htext => hany ⟨text, htext⟩
    rw [settings_of_no_document hnone,
      settings_of_no_document fun text htext => hnone text ((hdocument text).mpr htext)]

/-- Where a file is named, that name is all that matters. -/
theorem selects_iff_of_named (h : w.env "BF_CONFIG" = some path) (other : Path) :
    w.Selects other ↔ other = path := by
  rw [← settingsPath?_eq_some_iff, settingsPath?, h]
  show some path = some other ↔ _
  rw [Option.some_inj, eq_comm]

theorem sameDocument_of_named (h : w.env "BF_CONFIG" = some path)
    (h' : w'.env "BF_CONFIG" = some path) (hfile : w.file path = w'.file path) :
    w.SameDocument w' where
  selects other := by
    rw [selects_iff_of_named h, selects_iff_of_named h']
  file other hother := by
    rw [(selects_iff_of_named h other).mp hother]
    exact hfile

end World

/-! ## Numbers -/

/-- The settings that are numbers. -/
inductive Limit
  | timeoutMs
  | maxSteps

/-- Where a number may come from, the first source first. -/
inductive Source
  | flag
  | environment
  | document

def Source.rank : Source → Nat
  | .flag => 0
  | .environment => 1
  | .document => 2

theorem Source.eq_of_rank_eq {a b : Source} (h : a.rank = b.rank) : a = b := by
  cases a <;> cases b <;> first | rfl | nomatch h

namespace Limit

def ofFlags : Limit → Flags → Option Nat
  | .timeoutMs => Flags.timeoutMs
  | .maxSteps => Flags.maxSteps

def variableName : Limit → String
  | .timeoutMs => "BF_TIMEOUT_MS"
  | .maxSteps => "BF_MAX_STEPS"

def ofSettings : Limit → Settings → Option Nat
  | .timeoutMs => Settings.timeoutMs
  | .maxSteps => Settings.maxSteps

variable {limit : Limit} {flags flags' : Flags} {w w' : World} {n : Nat} {source : Source}

/-- A source says a number. -/
inductive Says (limit : Limit) (flags : Flags) (w : World) : Source → Nat → Prop
  | flag {n : Nat} (h : limit.ofFlags flags = some n) : Says limit flags w .flag n
  | environment {n : Nat} {text : String}
      (henv : w.env limit.variableName = some (Utf8.encode text))
      (hwritten : Numeral.Written n text.toList) : Says limit flags w .environment n
  | document {n : Nat} {text : String} (hdocument : w.Document text)
      (h : limit.ofSettings (Settings.ofDocument text) = some n) : Says limit flags w .document n

/-- All sources before this one say nothing. -/
def Consulted (limit : Limit) (flags : Flags) (w : World) (source : Source) : Prop :=
  ∀ earlier : Source, earlier.rank < source.rank → ∀ n, ¬ limit.Says flags w earlier n

/-- The first source that says anything decides; if there is none, there is no limit. -/
inductive Decides (limit : Limit) (flags : Flags) (w : World) : Option Nat → Prop
  | source {source : Source} {n : Nat} (hconsulted : limit.Consulted flags w source)
      (hanswer : limit.Says flags w source n) : Decides limit flags w (some n)
  | default (hsilent : ∀ source n, ¬ limit.Says flags w source n) : Decides limit flags w none

/-! What a source says is what is read from it. -/

theorem says_flag_iff : limit.Says flags w .flag n ↔ limit.ofFlags flags = some n := by
  constructor
  · rintro ⟨h⟩
    exact h
  · exact .flag

theorem says_environment_iff :
    limit.Says flags w .environment n ↔ w.envNumber? limit.variableName = some n := by
  rw [World.envNumber?, Option.bind_eq_some_iff]
  constructor
  · rintro (_ | ⟨henv, hwritten⟩ | _)
    exact ⟨_, World.envText?_eq_some_iff.mpr henv, Numeral.parse?_trim_eq_some_iff.mpr hwritten⟩
  · rintro ⟨text, htext, hparse⟩
    exact .environment (World.envText?_eq_some_iff.mp htext)
      (Numeral.parse?_trim_eq_some_iff.mp hparse)

theorem says_document_iff :
    limit.Says flags w .document n ↔ limit.ofSettings w.settings = some n := by
  constructor
  · rintro (_ | _ | ⟨hdocument, h⟩)
    rw [World.settings_of_document hdocument]
    exact h
  · intro h
    by_cases hany : ∃ text, w.Document text
    · obtain ⟨text, htext⟩ := hany
      rw [World.settings_of_document htext] at h
      exact .document htext h
    · -- The defaults say nothing about numbers.
      rw [World.settings_of_no_document fun text htext => hany ⟨text, htext⟩] at h
      cases limit <;> nomatch h

/-- The sources one after the other, as they are read. -/
theorem resolve_eq (limit : Limit) (flags : Flags) (w : World) :
    limit.ofSettings (Settings.resolve flags w)
      = (limit.ofFlags flags).or ((w.envNumber? limit.variableName).or
        (limit.ofSettings w.settings)) := by
  cases limit with
  | timeoutMs =>
    show (Settings.resolve flags w).timeoutMs
      = flags.timeoutMs.or ((w.envNumber? "BF_TIMEOUT_MS").or w.settings.timeoutMs)
    rw [Settings.resolve]
    cases flags.timeoutMs <;> cases w.envNumber? "BF_TIMEOUT_MS" <;> rfl
  | maxSteps =>
    show (Settings.resolve flags w).maxSteps
      = flags.maxSteps.or ((w.envNumber? "BF_MAX_STEPS").or w.settings.maxSteps)
    rw [Settings.resolve]
    cases flags.maxSteps <;> cases w.envNumber? "BF_MAX_STEPS" <;> rfl

theorem consulted_flag : limit.Consulted flags w .flag := by
  intro earlier hearlier
  exact absurd hearlier (Nat.not_lt_zero _)

theorem consulted_environment (hflag : limit.ofFlags flags = none) :
    limit.Consulted flags w .environment := by
  intro earlier hearlier n hanswer
  cases hanswer with
  | flag h => nomatch hflag.symm.trans h
  | environment => exact absurd hearlier (Nat.lt_irrefl _)
  | document => exact absurd hearlier (by decide)

theorem consulted_document (hflag : limit.ofFlags flags = none)
    (hvariable : w.envNumber? limit.variableName = none) : limit.Consulted flags w .document := by
  intro earlier hearlier n hanswer
  cases earlier with
  | flag => nomatch hflag.symm.trans (says_flag_iff.mp hanswer)
  | environment => nomatch hvariable.symm.trans (says_environment_iff.mp hanswer)
  | document => exact absurd hearlier (Nat.lt_irrefl _)

/-- What is resolved is decided like this. -/
theorem decides_resolve (limit : Limit) (flags : Flags) (w : World) :
    limit.Decides flags w (limit.ofSettings (Settings.resolve flags w)) := by
  rw [resolve_eq]
  cases hflag : limit.ofFlags flags with
  | some n => exact .source consulted_flag (says_flag_iff.mpr hflag)
  | none =>
    cases hvariable : w.envNumber? limit.variableName with
    | some n => exact .source (consulted_environment hflag) (says_environment_iff.mpr hvariable)
    | none =>
      cases hdocument : limit.ofSettings w.settings with
      | some n =>
        exact .source (consulted_document hflag hvariable) (says_document_iff.mpr hdocument)
      | none =>
        refine .default ?_
        intro source n hanswer
        cases source with
        | flag => nomatch hflag.symm.trans (says_flag_iff.mp hanswer)
        | environment => nomatch hvariable.symm.trans (says_environment_iff.mp hanswer)
        | document => nomatch hdocument.symm.trans (says_document_iff.mp hanswer)

/-- A source says at most one number. -/
theorem Says.unique {m : Nat} (h : limit.Says flags w source n) (h' : limit.Says flags w source m) :
    n = m := by
  cases source with
  | flag => exact Option.some.inj ((says_flag_iff.mp h).symm.trans (says_flag_iff.mp h'))
  | environment =>
    exact Option.some.inj ((says_environment_iff.mp h).symm.trans (says_environment_iff.mp h'))
  | document =>
    exact Option.some.inj ((says_document_iff.mp h).symm.trans (says_document_iff.mp h'))

/-- Two sources cannot both be the first. -/
theorem Decides.unique {a b : Option Nat} (h : limit.Decides flags w a)
    (h' : limit.Decides flags w b) : a = b := by
  cases h with
  | default hsilent =>
    cases h' with
    | default => rfl
    | source _ hanswer => exact absurd hanswer (hsilent _ _)
  | @source first n hconsulted hanswer =>
    cases h' with
    | default hsilent => exact absurd hanswer (hsilent _ _)
    | @source second m hconsulted' hanswer' =>
      rcases Nat.lt_trichotomy first.rank second.rank with hlt | heq | hlt
      · exact absurd hanswer (hconsulted' first hlt n)
      · obtain rfl := Source.eq_of_rank_eq heq
        rw [hanswer.unique hanswer']
      · exact absurd hanswer' (hconsulted second hlt m)

/-- **The first source that says anything decides.** -/
theorem resolve_eq_iff {answer : Option Nat} :
    limit.ofSettings (Settings.resolve flags w) = answer ↔ limit.Decides flags w answer := by
  constructor
  · rintro rfl
    exact decides_resolve limit flags w
  · exact (decides_resolve limit flags w).unique

/-! ## What does not matter -/

/-- Both have the same evidence in this source. -/
def Agree (limit : Limit) (flags : Flags) (w : World) (flags' : Flags) (w' : World) : Source → Prop
  | .flag => limit.ofFlags flags = limit.ofFlags flags'
  | .environment => w.env limit.variableName = w'.env limit.variableName
  | .document => w.SameDocument w'

/-- **Sources that are not consulted do not matter.** -/
theorem resolve_eq_of_agree
    (h : ∀ source, limit.Consulted flags w source → limit.Agree flags w flags' w' source) :
    limit.ofSettings (Settings.resolve flags w) = limit.ofSettings (Settings.resolve flags' w') := by
  have hflags : limit.ofFlags flags = limit.ofFlags flags' := h .flag consulted_flag
  rw [resolve_eq, resolve_eq, ← hflags]
  cases hflag : limit.ofFlags flags with
  | some n => rfl
  | none =>
    have henv : w.env limit.variableName = w'.env limit.variableName :=
      h .environment (consulted_environment hflag)
    have hnumber : w.envNumber? limit.variableName = w'.envNumber? limit.variableName := by
      rw [World.envNumber?, World.envNumber?, World.envText?, World.envText?, henv]
    rw [← hnumber]
    cases hvariable : w.envNumber? limit.variableName with
    | some n => rfl
    | none =>
      have hdocument : w.SameDocument w' := h .document (consulted_document hflag hvariable)
      rw [hdocument.settings_eq]

end Limit

/-! ## Brackets -/

/-- Brackets are checked unless the flag or the document says no. -/
theorem Settings.resolve_strictBrackets_iff (flags : Flags) (w : World) :
    (Settings.resolve flags w).strictBrackets = true
      ↔ flags.lenient = false
        ∧ ∀ text, w.Document text → (Settings.ofDocument text).strictBrackets = true := by
  show (!flags.lenient && w.settings.strictBrackets) = true ↔ _
  rw [Bool.and_eq_true, Bool.not_eq_true']
  refine and_congr_right fun _ => ?_
  constructor
  · intro h text htext
    rw [← World.settings_of_document htext]
    exact h
  · intro h
    by_cases hany : ∃ text, w.Document text
    · obtain ⟨text, htext⟩ := hany
      rw [World.settings_of_document htext]
      exact h text htext
    · rw [World.settings_of_no_document fun text htext => hany ⟨text, htext⟩]

/-- **Settings are resolved by priority.**

    * A number is what the first of its sources says that says anything: the flag, the variable if it
      is a numeral between blanks, the document; and there is none if they all say nothing.
    * Brackets are checked exactly if neither the flag nor the document is against it.
    * If a file is named, it is the one that is looked at, and if there is no text to be read in it,
      the settings are the defaults; they are also those of an empty text.
    * So two worlds, and two sets of flags, that have the same evidence in all sources that are
      consulted have the same number: with a flag, whatever else they have; with a numeral in the
      variable, whatever documents; and with a file named, wherever else there are documents.  The
      same is true of brackets. -/
theorem settings_resolve_by_priority (flags : Flags) (w : World) :
    (∀ (limit : Limit) (answer : Option Nat),
      limit.ofSettings (Settings.resolve flags w) = answer ↔ limit.Decides flags w answer)
    ∧ ((Settings.resolve flags w).strictBrackets = true
      ↔ flags.lenient = false
        ∧ ∀ text, w.Document text → (Settings.ofDocument text).strictBrackets = true)
    ∧ (∀ path, w.env "BF_CONFIG" = some path →
      (∀ other, w.Selects other ↔ other = path)
      ∧ ((∀ text, ¬ w.Holds path text) ∨ w.Holds path "" → w.settings = {}))
    ∧ (∀ (limit : Limit) (flags' : Flags) (w' : World),
      (∀ source, limit.Consulted flags w source → limit.Agree flags w flags' w' source) →
      limit.ofSettings (Settings.resolve flags w) = limit.ofSettings (Settings.resolve flags' w'))
    ∧ (∀ (flags' : Flags) (w' : World), flags.lenient = flags'.lenient →
      (flags.lenient = true ∨ w.SameDocument w') →
      (Settings.resolve flags w).strictBrackets = (Settings.resolve flags' w').strictBrackets)
    ∧ ∀ (path : Path) (w' : World), w.env "BF_CONFIG" = some path →
      w'.env "BF_CONFIG" = some path → w.file path = w'.file path → w.SameDocument w' := by
  refine ⟨fun limit answer => Limit.resolve_eq_iff, Settings.resolve_strictBrackets_iff flags w,
    ?_, fun limit flags' w' => Limit.resolve_eq_of_agree, ?_,
    fun path w' => World.sameDocument_of_named⟩
  · intro path hnamed
    refine ⟨World.selects_iff_of_named hnamed, ?_⟩
    rintro (hnone | hempty)
    · refine World.settings_of_no_document ?_
      rintro text ⟨other, hselects, hholds⟩
      rw [(World.selects_iff_of_named hnamed other).mp hselects] at hholds
      exact hnone text hholds
    · rw [World.settings_of_document ⟨path, .named hnamed, hempty⟩]
      rfl
  · intro flags' w' hlenient h
    show (!flags.lenient && w.settings.strictBrackets)
      = (!flags'.lenient && w'.settings.strictBrackets)
    rw [← hlenient]
    rcases h with hflag | hdocument
    · rw [hflag]
      rfl
    · rw [hdocument.settings_eq]

/-- A document that has something to say about every setting. -/
def Settings.outspoken : String :=
  "[run]\ntimeout_ms = 5\nmax_steps = 9\nstrict_brackets = false"

/-- A world in which it is named, one variable is a numeral and the other is a word. -/
def World.outspoken : World where
  env name :=
    if name = "BF_CONFIG" then some (Path.ofText "c")
    else if name = "BF_MAX_STEPS" then some (Utf8.encode " +7\n")
    else if name = "BF_TIMEOUT_MS" then some (Utf8.encode "soon")
    else none
  file path :=
    if path = Path.ofText "c" then .ok (Utf8.encode Settings.outspoken) else .error .notFound

/-- The numeral hides what the document says and the word does not, wherever the user is at home. -/
theorem numeral_hides_document_but_word_does_not :
    (Settings.resolve {} .outspoken).maxSteps = some 7
      ∧ (Settings.resolve {} .outspoken).timeoutMs = some 5
      ∧ (Settings.resolve {} .outspoken).strictBrackets = false
      ∧ (Settings.resolve {} { World.outspoken with
          env := fun name => if name = "HOME" then some [] else World.outspoken.env name }).timeoutMs
        = some 5 := by
  obtain ⟨hnumbers, hstrict, -, hsame, -, hnamed⟩ := settings_resolve_by_priority {} .outspoken
  have hfile : World.outspoken.file (Path.ofText "c") = .ok (Utf8.encode Settings.outspoken) :=
    if_pos rfl
  have hdocument : World.outspoken.Document Settings.outspoken := ⟨_, .named rfl, hfile⟩
  have hsettings : Settings.ofDocument Settings.outspoken = ⟨some 5, some 9, false⟩ := by decide
  have hseven : Numeral.Written 7 " +7\n".toList :=
    ⟨[' '], ['+', '7'], ['\n'], rfl, List.forall_mem_singleton.mpr rfl,
      List.forall_mem_singleton.mpr rfl,
      ⟨['7'], .inr rfl, List.cons_ne_nil _ _, List.forall_mem_singleton.mpr rfl, rfl⟩, by decide⟩
  have hword : World.outspoken.envNumber? "BF_TIMEOUT_MS" = none := by
    have htext : World.outspoken.envText? "BF_TIMEOUT_MS" = some "soon" :=
      World.envText?_eq_some_iff.mpr rfl
    rw [World.envNumber?, htext]
    decide
  have hfive : (Settings.resolve {} .outspoken).timeoutMs = some 5 := by
    refine (hnumbers .timeoutMs _).mpr
      (.source (Limit.consulted_document rfl hword) (.document hdocument ?_))
    rw [hsettings]
    rfl
  refine ⟨?_, hfive, ?_, ?_⟩
  · exact (hnumbers .maxSteps _).mpr
      (.source (Limit.consulted_environment rfl) (.environment rfl hseven))
  · rw [← Bool.not_eq_true, hstrict]
    rintro ⟨-, hon⟩
    have hstrict := hon _ hdocument
    rw [hsettings] at hstrict
    nomatch hstrict
  · rw [← hfive]
    refine (hsame .timeoutMs {} _ ?_).symm
    intro source _
    cases source with
    | flag => rfl
    | environment => rfl
    | document => exact hnamed _ _ rfl rfl rfl

end Brainfuck
