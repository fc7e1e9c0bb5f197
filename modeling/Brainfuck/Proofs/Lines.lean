/-
  Lines: what it means to be a line of a text, and to be a text without the blanks around it.

  A text is cut into lines with the characters of the current line in hand, last one first, and
  blanks are taken away from one end after the other.  Both RESULTS can be said without any of that:

  1. `Text.Splits`: the text is the lines put together again, each with its ending behind it.  No
     line holds a line feed, and a carriage return in front of one belongs to the ending.
  2. `Text.Trims`: there are only blanks around what is left, and what is left neither begins nor
     ends with one.

  Each relation has exactly one solution for every text, and it is what the function finds
  (`Text.splits_iff`, `Text.trims_iff`).
-/
import Brainfuck.Text.Lines
import Brainfuck.Proofs.Numerals
import Mathlib.Data.List.TakeWhile

namespace Brainfuck.Text

variable {cs line rest core : List Char} {split : List (List Char)}

/-! ## Lines -/

/-- The text consists of these lines. -/
inductive Splits : List Char → List (List Char) → Prop
  | nothing : Splits [] []
  /-- The last line needs no ending. -/
  | last {line : List Char} (hne : line ≠ []) (hline : '\n' ∉ line) : Splits line [line]
  | feed {line rest : List Char} {split : List (List Char)} (hline : '\n' ∉ line)
      (hreturn : line.getLast? ≠ some '\r') (hrest : Splits rest split) :
      Splits (line ++ '\n' :: rest) (line :: split)
  | returnFeed {line rest : List Char} {split : List (List Char)} (hline : '\n' ∉ line)
      (hrest : Splits rest split) : Splits (line ++ '\r' :: '\n' :: rest) (line :: split)

/-- Characters that are no line feed are collected. -/
theorem go_append (hline : '\n' ∉ line) (held rest : List Char) :
    lines.go held (line ++ rest) = lines.go (line.reverse ++ held) rest := by
  induction line generalizing held with
  | nil => rfl
  | cons c line ih =>
    rw [List.mem_cons, not_or] at hline
    obtain ⟨hc, hline⟩ := hline
    rw [List.cons_append, lines.go, if_neg (Ne.symm hc), ih hline, List.reverse_cons,
      List.append_assoc, List.singleton_append]

theorem lines_of_not_mem (hne : line ≠ []) (hline : '\n' ∉ line) : lines line = [line] := by
  have hgo := go_append hline [] []
  rw [List.append_nil, List.append_nil] at hgo
  rw [lines, hgo, lines.go, if_neg, List.reverse_reverse]
  rw [List.isEmpty_iff, List.reverse_eq_nil_iff]
  exact hne

theorem lines_append_feed (hline : '\n' ∉ line) (rest : List Char) :
    lines (line ++ '\n' :: rest) = dropFinal '\r' line :: lines rest := by
  rw [lines, go_append hline, List.append_nil, lines.go, if_pos rfl, List.reverse_reverse, lines]

/-- A text is a last line, or a line with a text below it. -/
theorem lines_induction {motive : List Char → Prop}
    (last : ∀ line, '\n' ∉ line → motive line)
    (feed : ∀ line rest, '\n' ∉ line → motive rest → motive (line ++ '\n' :: rest))
    (cs : List Char) : motive cs := by
  by_cases hfeed : '\n' ∈ cs
  · obtain ⟨line, rest, hcs, hline⟩ := List.eq_append_cons_of_mem hfeed
    rw [hcs]
    exact feed line rest hline (lines_induction last feed rest)
  · exact last cs hfeed
termination_by cs.length
decreasing_by
  rw [hcs, List.length_append, List.length_cons]
  omega

/-- **Cutting finds the lines.** -/
theorem splits_lines (cs : List Char) : Splits cs (lines cs) := by
  induction cs using lines_induction with
  | last line hline =>
    cases line with
    | nil => exact .nothing
    | cons c rest =>
      have hne : c :: rest ≠ [] := List.cons_ne_nil c rest
      rw [lines_of_not_mem hne hline]
      exact .last hne hline
  | feed line rest hline hrest =>
    rw [lines_append_feed hline, dropFinal]
    split
    · next hreturn =>
      obtain ⟨init, rfl⟩ := List.getLast?_eq_some_iff.mp hreturn
      rw [List.dropLast_concat, List.append_assoc]
      exact .returnFeed (fun hmem => hline (List.mem_append_left _ hmem)) hrest
    · next hreturn => exact .feed hline hreturn hrest

theorem Splits.eq_lines (h : Splits cs split) : split = lines cs := by
  induction h with
  | nothing => rfl
  | last hne hline => exact (lines_of_not_mem hne hline).symm
  | feed hline hreturn _ ih => rw [lines_append_feed hline, dropFinal, if_neg hreturn, ih]
  | @returnFeed line rest _ hline _ ih =>
    have hline : '\n' ∉ line ++ ['\r'] := by
      rw [List.mem_append, not_or]
      exact ⟨hline, by decide⟩
    have hreturn : (line ++ ['\r']).getLast? = some '\r' :=
      List.getLast?_eq_some_iff.mpr ⟨line, rfl⟩
    have hcut := lines_append_feed hline rest
    rw [dropFinal, if_pos hreturn, List.dropLast_concat, List.append_assoc] at hcut
    rw [ih]
    exact hcut.symm

theorem splits_iff : Splits cs split ↔ split = lines cs := by
  refine ⟨Splits.eq_lines, ?_⟩
  rintro rfl
  exact splits_lines cs

/-! ## Blanks -/

/-- What is left of the text without the blanks around it. -/
structure Trims (cs core : List Char) : Prop where
  parts : ∃ before after, cs = before ++ core ++ after
    ∧ (∀ c ∈ before, isBlank c = true) ∧ ∀ c ∈ after, isBlank c = true
  first : ∀ c, core.head? = some c → isBlank c = false
  last : ∀ c, core.getLast? = some c → isBlank c = false

theorem isBlank_of_head?_trimStart {c : Char} (h : (trimStart cs).head? = some c) :
    isBlank c = false := by
  have hnot := List.head?_dropWhile_not isBlank cs
  rw [← trimStart, h] at hnot
  exact hnot

/-- **Blanks are what is taken away.** -/
theorem trims_trim (cs : List Char) : Trims cs (trim cs) where
  parts := exists_trim cs
  first c h := by
    -- What is left in front is what has been left before the end was looked at.
    obtain ⟨removed, hremoved⟩ : ∃ removed, trimStart cs = trim cs ++ removed := by
      refine ⟨((trimStart cs).reverse.takeWhile isBlank).reverse, ?_⟩
      rw [trim, trimEnd, ← List.reverse_append, List.takeWhile_append_dropWhile,
        List.reverse_reverse]
    have hstart : (trimStart cs).head? = some c := by
      rw [hremoved, List.head?_append, h]
      rfl
    exact isBlank_of_head?_trimStart hstart
  last c h := by
    rw [trim, trimEnd, List.getLast?_reverse, ← trimStart] at h
    exact isBlank_of_head?_trimStart h

theorem Trims.eq_trim (h : Trims cs core) : core = trim cs := by
  obtain ⟨before, after, rfl, hbefore, hafter⟩ := h.parts
  by_cases hne : core = []
  · rw [hne, List.append_nil, trim, trimStart, List.dropWhile_append_of_pos hbefore,
      List.dropWhile_eq_nil_iff.mpr hafter]
    rfl
  · exact (trim_eq hbefore hafter hne h.first h.last).symm

theorem Trims.unique {core' : List Char} (h : Trims cs core) (h' : Trims cs core') : core = core' :=
  h.eq_trim.trans h'.eq_trim.symm

theorem trims_iff : Trims cs core ↔ core = trim cs := by
  refine ⟨Trims.eq_trim, ?_⟩
  rintro rfl
  exact trims_trim cs

def Blanks (cs : List Char) : Prop := ∀ c ∈ cs, isBlank c = true

instance (cs : List Char) : Decidable (Blanks cs) :=
  List.decidableBAll (fun c => isBlank c = true) cs

/-- The text is this one with blanks around it. -/
def Padded (core cs : List Char) : Prop :=
  ∃ before after, cs = before ++ core ++ after ∧ Blanks before ∧ Blanks after

/-- **Blanks around a text are taken away with those at its ends.** -/
theorem Padded.trim_eq (h : Padded core cs) : trim cs = trim core := by
  obtain ⟨before, after, rfl, hbefore, hafter⟩ := h
  obtain ⟨first, last, hcore, hfirst, hlast⟩ := (trims_trim core).parts
  have hparts : before ++ core ++ after = before ++ first ++ trim core ++ (last ++ after) := by
    conv => lhs; rw [hcore]
    simp only [List.append_assoc]
  have htrims : Trims (before ++ core ++ after) (trim core) := by
    refine ⟨⟨_, _, hparts, ?_, ?_⟩, (trims_trim core).first, (trims_trim core).last⟩
    · exact List.forall_mem_append.mpr ⟨hbefore, hfirst⟩
    · exact List.forall_mem_append.mpr ⟨hlast, hafter⟩
  exact htrims.eq_trim.symm

theorem trim_trimStart (cs : List Char) : trim (trimStart cs) = trim cs := by
  refine (Padded.trim_eq ⟨cs.takeWhile isBlank, [], ?_, ?_, List.forall_mem_nil _⟩).symm
  · rw [trimStart, List.takeWhile_append_dropWhile, List.append_nil]
  · exact fun c hc => List.mem_takeWhile_imp hc

theorem trim_trimEnd (cs : List Char) : trim (trimEnd cs) = trim cs := by
  refine (Padded.trim_eq ⟨[], (cs.reverse.takeWhile isBlank).reverse, ?_, List.forall_mem_nil _,
    ?_⟩).symm
  · rw [trimEnd, List.nil_append, ← List.reverse_append, List.takeWhile_append_dropWhile,
      List.reverse_reverse]
  · exact fun c hc => List.mem_takeWhile_imp (List.mem_reverse.mp hc)

/-! ### Around a character that is no blank -/

theorem trimStart_append_cons {c : Char} (hc : isBlank c = false) (before after : List Char) :
    trimStart (before ++ c :: after) = trimStart before ++ c :: after := by
  rw [trimStart, List.dropWhile_append, trimStart]
  split
  · next hnone =>
    have hc : ¬ isBlank c = true := Bool.eq_false_iff.mp hc
    rw [List.isEmpty_iff.mp hnone, List.dropWhile_cons_of_neg hc, List.nil_append]
  · rfl

/-- Each end is looked at up to the character. -/
theorem trim_append_cons {c : Char} (hc : isBlank c = false) (before after : List Char) :
    trim (before ++ c :: after) = trimStart before ++ c :: trimEnd after := by
  have hreverse : (trimStart before ++ c :: after).reverse
      = after.reverse ++ c :: (trimStart before).reverse := by
    rw [List.reverse_append, List.reverse_cons, List.append_assoc, List.singleton_append]
  rw [trim, trimStart_append_cons hc, trimEnd, hreverse, ← trimStart, trimStart_append_cons hc,
    List.reverse_append, List.reverse_cons, List.reverse_reverse, List.append_assoc,
    List.singleton_append]
  rfl

theorem head?_trimStart_append {blanks : List Char} (h : Blanks blanks) (cs : List Char) :
    (trimStart (cs ++ blanks)).head? = (trimStart cs).head? := by
  rw [trimStart, List.dropWhile_append, trimStart]
  split
  · next hnone => rw [List.isEmpty_iff.mp hnone, List.dropWhile_eq_nil_iff.mpr h]
  · next hsome =>
    rw [List.isEmpty_iff] at hsome
    obtain ⟨c, rest, hcs⟩ := List.exists_cons_of_ne_nil hsome
    rw [hcs]
    rfl

theorem getLast?_trimEnd_append {blanks : List Char} (h : Blanks blanks) (cs : List Char) :
    (trimEnd (blanks ++ cs)).getLast? = (trimEnd cs).getLast? := by
  have hreverse : Blanks blanks.reverse := fun c hc => h c (List.mem_reverse.mp hc)
  rw [trimEnd, List.getLast?_reverse, List.reverse_append, ← trimStart,
    head?_trimStart_append hreverse, trimEnd, List.getLast?_reverse, trimStart]

end Brainfuck.Text
