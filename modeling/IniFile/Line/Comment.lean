/-
  Comments.

  A comment is a marker and the text behind it.  Blanks at the end of the text are never kept —
  the type says so — while blanks in front of it are, so that `;note` and `; note` stay apart.

  Mathlib-free.
-/
import IniFile.Text.Basic

namespace IniFile

/-- A comment marker and the text after it, without trailing blanks. -/
structure Comment where
  marker : Char
  text : Text
  trimmed : text.trimEnd = text
deriving DecidableEq, Repr

namespace Comment

/-- The comment that the marker starts; blanks at the end of its text are dropped. -/
def of (marker : Char) (text : Text) : Comment := ⟨marker, text.trimEnd, Text.trimEnd_trimEnd text⟩

/-- The comment as it is written. -/
def render (c : Comment) : Text := c.marker :: c.text

/-- A comment is determined by its marker and its text. -/
theorem of_marker_text (c : Comment) : of c.marker c.text = c := by
  obtain ⟨marker, text, trimmed⟩ := c
  simp only [of, trimmed]

end Comment
end IniFile
