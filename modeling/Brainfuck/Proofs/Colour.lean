/-
  Colour: a diagnostic says the same with it and without it.

  What is written to a terminal is mixed of two kinds of things, characters to be shown and SEQUENCES
  that tell how.  A text may contain any of the characters that sequences consist of, so only a
  reader that knows where it is can tell them apart.  There are two such readers here:

  1. `Text.withoutSequences` deletes every sequence, from an escape character up to the next `m`.
  2. A PEN is what a terminal is at: writing in a style, or in none, or reading a sequence.  It shows
     each character in the style that is on (`Pen.shown`), and where it is after a text is
     `Pen.after`.

  What the pen shows is what the deletion leaves (`Pen.map_fst_shown`), so everything is said of the
  pen: it writes without a style before a span and behind it, and shows the span in its own style
  (`Span.shows_render`); hence also before and behind each span of a diagnostic
  (`Diagnostic.shows_render`).
-/
import Brainfuck.Proofs.Blame
import Brainfuck.Proofs.Legible

namespace Brainfuck

/-! ## Two readers -/

/-- A text without its sequences, each of which goes from an escape character up to and including the
    next `m`. -/
def Text.withoutSequences (text : String) : String := String.ofList (go false text.toList)
where
  /-- The flag says whether a sequence has begun. -/
  go : Bool → List Char → List Char
    | _, [] => []
    | false, c :: rest => if c = '\x1b' then go true rest else c :: go false rest
    | true, c :: rest => if c = 'm' then go false rest else go true rest

/-- What a terminal is at. -/
inductive Pen
  /-- It shows characters, in the style that is on if there is one. -/
  | writing (style : Option (List Char))
  /-- It reads a sequence, of which it has seen this much behind the escape character. -/
  | reading (seen : List Char)

namespace Pen

/-- The style that a sequence turns on; one of them turns it off. -/
def selected (seen : List Char) : Option (List Char) :=
  if seen = "[0".toList then none else some seen

def next : Pen → Char → Pen
  | writing style, c => if c = '\x1b' then reading [] else writing style
  | reading seen, c => if c = 'm' then writing (selected seen) else reading (seen ++ [c])

/-- The character as it is shown, if it is. -/
def mark : Pen → Char → List (Char × Option (List Char))
  | writing style, c => if c = '\x1b' then [] else [(c, style)]
  | reading _, _ => []

/-- The characters that are shown of a text, each with its style. -/
def shown : Pen → List Char → List (Char × Option (List Char))
  | _, [] => []
  | pen, c :: rest => pen.mark c ++ (pen.next c).shown rest

/-- What the terminal is at behind a text. -/
def after (pen : Pen) (text : List Char) : Pen := text.foldl next pen

def isReading : Pen → Bool
  | writing _ => false
  | reading _ => true

variable {style : Option (List Char)} {text seen a b : List Char}

/-- **What is shown is what the deletion of sequences leaves.** -/
theorem map_fst_shown (pen : Pen) (text : List Char) :
    (pen.shown text).map Prod.fst = Text.withoutSequences.go pen.isReading text := by
  induction text generalizing pen with
  | nil => cases pen <;> rfl
  | cons c rest ih =>
    rw [shown, List.map_append, ih]
    cases pen with
    | writing style =>
      rw [mark, next, isReading, Text.withoutSequences.go]
      split <;> rfl
    | reading seen =>
      rw [mark, next, isReading, Text.withoutSequences.go]
      split <;> rfl

theorem shown_append (pen : Pen) (a b : List Char) :
    pen.shown (a ++ b) = pen.shown a ++ (pen.after a).shown b := by
  induction a generalizing pen with
  | nil => rfl
  | cons c a ih =>
    rw [List.cons_append, shown, shown, ih, List.append_assoc]
    rfl

theorem after_append (pen : Pen) (a b : List Char) :
    pen.after (a ++ b) = (pen.after a).after b :=
  List.foldl_append

/-- This is what the pen shows of a text, and what it is at behind it. -/
def Shows (pen : Pen) (text : List Char) (marks : List (Char × Option (List Char)))
    (last : Pen) : Prop :=
  pen.shown text = marks ∧ pen.after text = last

theorem Shows.append {pen middle last : Pen} {marks more : List (Char × Option (List Char))}
    (ha : pen.Shows a marks middle) (hb : middle.Shows b more last) :
    pen.Shows (a ++ b) (marks ++ more) last := by
  obtain ⟨hmarks, hmiddle⟩ := ha
  obtain ⟨hmore, hlast⟩ := hb
  refine ⟨?_, ?_⟩
  · rw [shown_append, hmarks, hmiddle, hmore]
  · rw [after_append, hmiddle, hlast]

/-- Characters that are no escape character are shown. -/
theorem shows_of_not_mem (h : '\x1b' ∉ text) (style : Option (List Char)) :
    (writing style).Shows text (text.map (·, style)) (writing style) := by
  induction text with
  | nil => exact ⟨rfl, rfl⟩
  | cons c rest ih =>
    rw [List.mem_cons, not_or] at h
    obtain ⟨hshown, hafter⟩ := ih h.2
    have hnext : (writing style).next c = writing style := if_neg (Ne.symm h.1)
    refine ⟨?_, ?_⟩
    · rw [shown, mark, if_neg (Ne.symm h.1), hnext, hshown]
      rfl
    · rw [after, List.foldl_cons, hnext]
      exact hafter

/-- A sequence goes on up to the first `m`. -/
theorem shows_of_reading (h : 'm' ∉ text) (seen : List Char) :
    (reading seen).Shows text [] (reading (seen ++ text)) := by
  induction text generalizing seen with
  | nil => exact ⟨rfl, congrArg reading (List.append_nil seen).symm⟩
  | cons c rest ih =>
    rw [List.mem_cons, not_or] at h
    obtain ⟨hshown, hafter⟩ := ih h.2 (seen ++ [c])
    have hnext : (reading seen).next c = reading (seen ++ [c]) := if_neg (Ne.symm h.1)
    refine ⟨?_, ?_⟩
    · rw [shown, hnext, hshown]
      rfl
    · rw [after, List.foldl_cons, hnext]
      rw [List.append_assoc] at hafter
      exact hafter

/-- Nothing is shown of a sequence, and its style is on behind it. -/
theorem shows_sequence (h : 'm' ∉ seen) :
    (writing style).Shows ('\x1b' :: (seen ++ ['m'])) [] (writing (selected seen)) := by
  have hbegin : (writing style).Shows ['\x1b'] [] (reading []) := ⟨rfl, rfl⟩
  have hend : (reading seen).Shows ['m'] [] (writing (selected seen)) := ⟨rfl, rfl⟩
  have hseen : (reading []).Shows seen [] (reading seen) := shows_of_reading h []
  exact hbegin.append (hseen.append hend)

end Pen

/-! ## Styles -/

namespace Style

/-- What a terminal reads of the sequence that turns the style on. -/
def code (s : Style) : List Char := '[' :: s.parameters.toList

/-- The sequence ends where it should end, -/
theorem not_mem_code (s : Style) : 'm' ∉ s.code := by
  have hnumber (n : Nat) : 'm' ∉ (toString n).toList := not_mem_toString (by decide) n
  have hbold : 'm' ∉ (if s.bold then "1;" else "").toList := by split <;> decide
  have hsemicolon : 'm' ∉ (";" : String).toList := by decide
  have hred : 'm' ∉ ((if s.bold then "1;" else "") ++ "38;2;" ++ toString s.red).toList :=
    not_mem_append (not_mem_append hbold (by decide)) (hnumber s.red)
  have hgreen := not_mem_append (not_mem_append hred hsemicolon) (hnumber s.green)
  have hblue := not_mem_append (not_mem_append hgreen hsemicolon) (hnumber s.blue)
  rw [code, List.mem_cons, not_or]
  exact ⟨by decide, hblue⟩

/-- and is not the one that turns a style off. -/
theorem selected_code (s : Style) : Pen.selected s.code = some s.code := by
  refine if_neg fun heq => ?_
  have hsemicolon : ';' ∈ s.code := by simp [code, parameters]
  rw [heq] at hsemicolon
  revert hsemicolon
  decide

theorem toList_paint (s : Style) (text : String) :
    (s.paint text).toList
      = '\x1b' :: (s.code ++ ['m']) ++ text.toList ++ '\x1b' :: ("[0".toList ++ ['m']) := by
  simp [paint, code]

end Style

/-! ## Spans and diagnostics -/

/-- The characters of a text, all in one style or in none. -/
def inked (style : Option Style) (text : String) : List (Char × Option (List Char)) :=
  text.toList.map (·, style.map Style.code)

/-- **A style is on for the span that it belongs to.** -/
theorem Span.shows_render {span : Span} (h : '\x1b' ∉ span.text.toList) :
    (Pen.writing none).Shows (span.render true).toList (inked span.style span.text)
      (.writing none) := by
  rcases span with ⟨_ | style, text⟩
  · exact Pen.shows_of_not_mem h none
  · have hon : (Pen.writing none).Shows _ [] _ := Pen.shows_sequence style.not_mem_code
    have hoff : (Pen.writing (some style.code)).Shows ('\x1b' :: ("[0".toList ++ ['m'])) [] _ :=
      Pen.shows_sequence (by decide)
    rw [style.selected_code] at hon
    have hpainted := (hon.append (Pen.shows_of_not_mem h (some style.code))).append hoff
    rw [List.nil_append, List.append_nil, ← style.toList_paint] at hpainted
    exact hpainted

namespace Diagnostic

/-- Spans are rendered one after the other. -/
theorem toList_render (colored : Bool) (d : Diagnostic) :
    (render colored d).toList = d.flatMap fun span => (span.render colored).toList := by
  have hfrom (start : String) :
      (d.foldl (fun text span => text ++ span.render colored) start).toList
        = start.toList ++ d.flatMap fun span => (span.render colored).toList := by
    induction d generalizing start with
    | nil => exact (List.append_nil _).symm
    | cons span rest ih =>
      rw [List.foldl_cons, ih, String.toList_append, List.flatMap_cons, List.append_assoc]
  exact hfrom ""

/-- **Before, between and behind the spans of a diagnostic no style is on.** -/
theorem shows_render {d : Diagnostic} (h : ∀ span ∈ d, '\x1b' ∉ span.text.toList) :
    (Pen.writing none).Shows (render true d).toList
      (d.flatMap fun span => inked span.style span.text) (.writing none) := by
  rw [toList_render]
  induction d with
  | nil => exact ⟨rfl, rfl⟩
  | cons span rest ih =>
    have hspan := Span.shows_render (h span List.mem_cons_self)
    have hrest := ih fun other hother => h other (List.mem_cons_of_mem span hother)
    exact hspan.append hrest

/-- Colour adds sequences to a diagnostic, and nothing else. -/
theorem withoutSequences_render {d : Diagnostic} (h : ∀ span ∈ d, '\x1b' ∉ span.text.toList) :
    Text.withoutSequences (render true d) = render false d := by
  obtain ⟨hshown, -⟩ := shows_render h
  have hplain : (fun span : Span => (inked span.style span.text).map Prod.fst)
      = fun span => (span.render false).toList := by
    funext span
    rw [inked, List.map_map]
    exact List.map_id _
  have hleft : Text.withoutSequences.go false (render true d).toList = (render false d).toList := by
    calc Text.withoutSequences.go false (render true d).toList
        = ((Pen.writing none).shown (render true d).toList).map Prod.fst :=
          (Pen.map_fst_shown (.writing none) _).symm
      _ = d.flatMap fun span => (inked span.style span.text).map Prod.fst := by
          rw [hshown, List.map_flatMap]
      _ = (render false d).toList := by rw [hplain, toList_render]
  rw [Text.withoutSequences, hleft, String.ofList_toList]

/-- The texts of a diagnostic about a position are free of escape characters if what it is made of
    is. -/
theorem not_mem_located {message text : String} (hmessage : '\x1b' ∉ message.toList)
    (htext : '\x1b' ∉ text.toList) (position : Nat) :
    ∀ span ∈ located message text position, '\x1b' ∉ span.text.toList := by
  have hnumber : '\x1b' ∉ (toString position).toList := not_mem_toString (by decide) position
  have hwindow : '\x1b' ∉ (window text position).toList := by
    rw [toList_window]
    exact fun hmem => htext (List.mem_of_mem_drop (List.mem_of_mem_take hmem))
  have hmarker : '\x1b' ∉ (marker position).toList := by
    refine not_mem_append ?_ (by decide)
    rw [String.toList_ofList, List.mem_replicate]
    rintro ⟨-, heq⟩
    nomatch heq
  intro span hspan
  simp only [located, List.mem_cons, List.not_mem_nil, or_false] at hspan
  rcases hspan with rfl | rfl | rfl | rfl | rfl | rfl
  · exact hmessage
  · exact not_mem_append (not_mem_append (by decide) hnumber) (by decide)
  · exact hwindow
  · decide
  · exact hmarker
  · decide

theorem not_mem_heading {reporter : Option String} {fault : Fault}
    (hreporter : ∀ name, reporter = some name → '\x1b' ∉ name.toList)
    (hreason : ∀ ip reason, fault = .io ip reason → '\x1b' ∉ reason.toList) :
    '\x1b' ∉ (heading reporter fault).toList := by
  have hsummary : '\x1b' ∉ (summary fault).toList := by
    cases fault with
    | underflow ip =>
      show '\x1b' ∉ ("Runtime error: tape underflow (cannot move left of cell 0)" : String).toList
      decide
    | unmatched ip side => exact not_mem_append (by decide) (by cases side <;> decide)
    | io ip reason => exact not_mem_append (by decide) (hreason ip reason rfl)
    | stepLimit limit =>
      have hnumber : '\x1b' ∉ (toString limit).toList := not_mem_toString (by decide) limit
      exact not_mem_append (not_mem_append (by decide) hnumber) (by decide)
    | canceled => decide
  cases reporter with
  | none => exact hsummary
  | some name => exact not_mem_append (not_mem_append (hreporter name rfl) (by decide)) hsummary

/-- Colour changes nothing of what a diagnostic says, and no style outlasts the piece of text that it
    has been turned on for. -/
structure Faithful (d : Diagnostic) : Prop where
  erased : Text.withoutSequences (render true d) = render false d
  shown : (Pen.writing none).shown (render true d).toList
    = d.flatMap fun span => inked span.style span.text
  closed : (Pen.writing none).after (render true d).toList = .writing none

theorem faithful_of_not_mem {d : Diagnostic} (h : ∀ span ∈ d, '\x1b' ∉ span.text.toList) :
    Faithful d where
  erased := withoutSequences_render h
  shown := (shows_render h).1
  closed := (shows_render h).2

/-- **Colouring never changes the text.**  Let what a diagnostic is made of be free of escape
    characters: a text, and a message or else the name of a reporter and the reason of a fault.
    Then deleting all sequences from what a terminal gets leaves what is written without colour; and
    of a diagnostic about a position the terminal shows the message, the window and the caret in
    their styles and all else, from the number of the instruction to the end of the last line, in
    none. -/
theorem colouring_keeps_text (text : String) (htext : '\x1b' ∉ text.toList) :
    (∀ (message : String) (position : Nat), '\x1b' ∉ message.toList →
      Faithful (located message text position)
      ∧ (Pen.writing none).shown (render true (located message text position)).toList
        = inked (some .failure) message
          ++ inked none (" at instruction " ++ toString position ++ "\n  ")
          ++ inked (some .dim) (window text position) ++ inked none "\n  "
          ++ inked (some .caret) (marker position) ++ inked none "\n")
    ∧ ∀ (reporter : Option String) (fault : Fault),
      (∀ name, reporter = some name → '\x1b' ∉ name.toList) →
      (∀ ip reason, fault = .io ip reason → '\x1b' ∉ reason.toList) →
      Faithful (ofFault reporter text fault)
      ∧ (∀ ip, fault.position? = some ip →
        ofFault reporter text fault = located (heading reporter fault) text ip)
      ∧ (fault.position? = none →
        (Pen.writing none).shown (render true (ofFault reporter text fault)).toList
          = inked (some .stopped) (heading reporter fault) ++ inked none "\n") := by
  constructor
  · intro message position hmessage
    have hfaithful := faithful_of_not_mem (not_mem_located hmessage htext position)
    refine ⟨hfaithful, hfaithful.shown.trans ?_⟩
    simp [located]
  · intro reporter fault hreporter hreason
    have hheading := not_mem_heading hreporter hreason
    cases hposition : fault.position? with
    | some ip =>
      have hlocated : ofFault reporter text fault = located (heading reporter fault) text ip := by
        unfold ofFault
        rw [hposition]
        rfl
      refine ⟨?_, ?_, fun hnone => (nomatch hnone)⟩
      · rw [hlocated]
        exact faithful_of_not_mem (not_mem_located hheading htext ip)
      · rintro _ ⟨⟩
        exact hlocated
    | none =>
      have hstopped : ofFault reporter text fault
          = [{ style := some .stopped, text := heading reporter fault }, { text := "\n" }] := by
        unfold ofFault
        rw [hposition]
        rfl
      have hfaithful : Faithful (ofFault reporter text fault) := by
        rw [hstopped]
        exact faithful_of_not_mem (by simp [hheading])
      refine ⟨hfaithful, fun ip hsome => (nomatch hsome), fun _ => hfaithful.shown.trans ?_⟩
      simp [hstopped]

/-- A reason, a program and a name that are full of what sequences are made of. -/
theorem text_like_sequences_is_kept :
    Faithful (located "1m[" "[0m;m" 1)
      ∧ Faithful (ofFault (some "m") "+[0m." (.io 4 "[38;2;1;2;3m"))
      ∧ Faithful (ofFault none "[0m" (.stepLimit 0)) := by
  obtain ⟨hlocated, -⟩ := colouring_keeps_text "[0m;m" (by decide)
  obtain ⟨-, hfailed⟩ := colouring_keeps_text "+[0m." (by decide)
  obtain ⟨-, hstopped⟩ := colouring_keeps_text "[0m" (by decide)
  refine ⟨(hlocated "1m[" 1 (by decide)).1, ?_, ?_⟩
  · refine (hfailed (some "m") (.io 4 "[38;2;1;2;3m") ?_ ?_).1
    · rintro _ ⟨⟩
      decide
    · rintro _ _ ⟨⟩
      decide
  · exact (hstopped none (.stepLimit 0) (fun _ h => nomatch h) (fun _ _ h => nomatch h)).1

end Diagnostic

end Brainfuck
