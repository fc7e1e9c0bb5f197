/-
  Windows: what is shown of a text around a position, whatever the text and the position are.

  Three kinds of counting meet in a diagnostic, and each has an end at which it could go wrong:

  1. CHARACTERS are counted to find the window.  It begins 32 before the position, or with the text,
     and ends behind 32 after it, or with the text; far behind the text it begins behind its end.
  2. BYTES are where the text is cut.  They are found for characters, so each is between two of them,
     and they are in order even where the numbers of the characters are not (`Framed.sliced`).
  3. COLUMNS are counted on the screen, from the indent on.  The caret is moved to the right by as
     much as the window has been moved to the left (`Framed.above_caret`).

  `Diagnostic.Framed` says all of it of the numbers themselves.
-/
import Brainfuck.Proofs.Blame

namespace Brainfuck

/-- A text that has been cut could be cut: between characters, and in order. -/
theorem Text.isValid_of_slice? {text part : String} {first last : Nat}
    (h : slice? text first last = some part) :
    String.Pos.Raw.IsValid text ⟨first⟩ ∧ String.Pos.Raw.IsValid text ⟨last⟩ ∧ first ≤ last := by
  rw [slice?, Option.dite_none_right_eq_some] at h
  obtain ⟨hcut, -⟩ := h
  exact hcut

namespace Diagnostic

/-- The text is cut where the characters of the window begin and end. -/
theorem slice?_window (text : String) (position : Nat) :
    Text.slice? text (Text.byteIndex text (windowStart position))
      (Text.byteIndex text (windowStop text position)) = some (window text position) :=
  (Option.some_get _).symm

/-- How a diagnostic shows the surroundings of a position. -/
structure Framed (message text : String) (position : Nat) : Prop where
  /-- The window begins between two characters, -/
  first_isValid : String.Pos.Raw.IsValid text ⟨Text.byteIndex text (position - 32)⟩
  /-- ends between two characters, -/
  last_isValid :
    String.Pos.Raw.IsValid text ⟨Text.byteIndex text (min (position + 33) text.length)⟩
  /-- not before it has begun, -/
  ordered : Text.byteIndex text (position - 32)
    ≤ Text.byteIndex text (min (position + 33) text.length)
  /-- and is what lies between them. -/
  sliced : Text.slice? text (Text.byteIndex text (position - 32))
    (Text.byteIndex text (min (position + 33) text.length)) = some (window text position)
  characters : (window text position).toList
    = (text.toList.take (min (position + 33) text.length)).drop (position - 32)
  length_le : (window text position).length ≤ 65
  empty_iff : window text position = "" ↔ text.length ≤ position - 32
  /-- The window and the caret have lines of their own, with the same indent, painted or not. -/
  rendered : ∀ colored, render colored (located message text position)
    = Span.render colored { style := some .failure, text := message }
      ++ " at instruction " ++ toString position ++ "\n"
      ++ ("  " ++ Span.render colored { style := some .dim, text := window text position } ++ "\n")
      ++ ("  " ++ Span.render colored
          { style := some .caret,
            text := String.ofList (List.replicate (position - (position - 32)) ' ') ++ "^" }
        ++ "\n")
  /-- Not painted, they are the characters themselves. -/
  plain : render false (located message text position)
    = message ++ " at instruction " ++ toString position ++ "\n"
      ++ ("  " ++ window text position ++ "\n")
      ++ ("  " ++ (String.ofList (List.replicate (position - (position - 32)) ' ') ++ "^") ++ "\n")
  /-- In the column of the caret the window has the character at the position. -/
  above_caret : position < text.length → ∃ c, text.toList[position]? = some c
    ∧ ("  " ++ window text position).toList[2 + (position - (position - 32))]? = some c
    ∧ ("  " ++ (String.ofList (List.replicate (position - (position - 32)) ' ')
        ++ "^")).toList[2 + (position - (position - 32))]? = some '^'

/-- The characters of the window, by their numbers in the text. -/
theorem toList_window_eq (text : String) (position : Nat) :
    (window text position).toList
      = (text.toList.take (min (position + 33) text.length)).drop (position - 32) := by
  rw [toList_window, List.drop_take]
  rfl

theorem length_window_eq (text : String) (position : Nat) :
    (window text position).length = min (position + 33) text.length - (position - 32) := by
  rw [← String.length_toList, toList_window_eq, List.length_drop, List.length_take,
    String.length_toList]
  omega

/-- What is put together of a message, a position and a text, piece by piece. -/
theorem render_located (colored : Bool) (message text : String) (position : Nat) :
    render colored (located message text position)
      = Span.render colored { style := some .failure, text := message }
        ++ " at instruction " ++ toString position ++ "\n"
        ++ ("  " ++ Span.render colored { style := some .dim, text := window text position }
          ++ "\n")
        ++ ("  " ++ Span.render colored { style := some .caret, text := marker position }
          ++ "\n") := by
  have hplain (piece : String) : Span.render colored { text := piece } = piece := by
    cases colored <;> rfl
  have hindent : "\n  " = "\n" ++ "  " := rfl
  simp only [render, located, List.foldl_cons, List.foldl_nil, hplain, hindent,
    String.append_assoc, String.empty_append]

/-- The caret stands in its column. -/
theorem getElem?_marker (position : Nat) :
    ("  " ++ marker position).toList[column position]? = some '^' := by
  have hindent : ("  " : String).toList.length = 2 := rfl
  rw [String.toList_append, column, List.getElem?_append_right (by omega), hindent,
    Nat.add_sub_cancel_left, marker, String.toList_append, String.toList_ofList,
    List.getElem?_append_right (by simp), List.length_replicate, Nat.sub_self]
  rfl

/-- **The context window is well formed**, for every text and every position. -/
theorem context_window_is_framed (message text : String) (position : Nat) :
    Framed message text position := by
  have hslice := slice?_window text position
  obtain ⟨hfirst, hlast, hordered⟩ := Text.isValid_of_slice? hslice
  have hlength := length_window_eq text position
  refine ⟨hfirst, hlast, hordered, hslice, toList_window_eq text position, by omega, ?_,
    fun colored => render_located colored message text position,
    render_located false message text position, ?_⟩
  · rw [← String.length_eq_zero_iff, hlength]
    omega
  · intro hposition
    have hposition : position < text.toList.length := by rwa [String.length_toList]
    refine ⟨text.toList[position], List.getElem?_eq_getElem hposition, ?_,
      getElem?_marker position⟩
    exact (getElem?_window text hposition).trans (List.getElem?_eq_getElem hposition)

end Diagnostic

end Brainfuck
