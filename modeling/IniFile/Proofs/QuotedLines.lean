/-
  Quoting undone by tokenizing.

  The writer quotes a value because of what is in it.  The reader has nothing but the line: it cuts
  at the delimiter, skips blanks, and then goes by the first character and by the comment markers.
  On the line of any key that can be written the two agree about EVERY value, whatever the markers
  are, quotes, blanks and backslashes among them: no marker is in a bare value, and a quoted value is
  read before markers are looked for.

  1. **Behind the delimiter** — the value is read back, the empty one too.
  2. **Lines alone** — a text without a line feed is one token.
  3. **Assignments** — the line of a key and a value is the token of that key and that value.
-/
import IniFile.Proofs.FreshLines
import IniFile.Proofs.LineGrammar
import IniFile.Proofs.Mark

namespace IniFile

open Text

/-! ## Behind the delimiter -/

/-- **A value is read back** behind the delimiter and a blank. -/
theorem Line.scanValue_quoteIfNeeded (d : Dialect) (value : Text) :
    Line.scanValue d (trimStart (' ' :: Quoted.quoteIfNeeded d value)) = .ok (value, none) := by
  cases value with
  | nil => rfl
  | cons first more =>
    have hwritten := scanValue_written (first :: more) d.closesWith_none
    rwa [List.isEmpty_cons, if_neg Bool.false_ne_true, commentSuffix, List.append_nil] at hwritten

/-! ## Lines alone -/

/-- **A text without a line feed is one token**, unless a mark in front or a carriage return at the
    end is no part of the line. -/
theorem tokens_of_line (d : Dialect) {line : Text} (hne : line ≠ []) (hfeed : '\n' ∉ line)
    (hreturn : line.getLast? ≠ some '\r') (hbom : line.head? ≠ some bom) :
    tokens d line = [Token.ofLine d 1 line] := by
  have hlines : line.dropBom.lines = [line] := by
    rw [dropBom_of_head?_ne hbom, lines, pieces_of_not_mem hfeed, if_neg hne, List.map_singleton,
      dropReturn_of_getLast? hreturn]
  rw [tokens, hlines]
  rfl

/-- A line that starts with no blank is at column one. -/
theorem Token.ofLine_of_says {d : Dialect} {n : Nat} {raw : Text} {content : Content}
    (h : Line.Says d raw content) (hstart : trimStart raw = raw) :
    Token.ofLine d n raw = ⟨n, 1, raw, content⟩ := by
  have hcolumn : Line.columnAt raw raw = 1 := by rw [Line.columnAt, Nat.sub_self]
  rw [ofLine, Line.scan_of_form (Line.says_iff_form.mp h), hstart, hcolumn, ite_self]

/-! ## Assignments -/

/-- The line of a key and a value. -/
def Line.assignment (d : Dialect) (key value : Text) : Text :=
  key ++ [' ', d.delimiter.char, ' '] ++ Quoted.quoteIfNeeded d value

section Assignments

variable {d : Dialect} {key : Text}

theorem Line.says_quoted_assignment (hkey : Key.Written d key) (value : Text) :
    Line.Says d (Line.assignment d key value) (.entry key value none) := by
  have hline : Line.assignment d key value =
      key ++ [' ', d.delimiter.char] ++ ' ' :: Quoted.quoteIfNeeded d value := by simp [assignment]
  rw [hline]
  exact says_assignment hkey (scanValue_quoteIfNeeded d value)

theorem Line.lf_not_mem_assignment (hkey : Key.Written d key) (value : Text) :
    '\n' ∉ Line.assignment d key value := by
  have hdelimiter : '\n' ≠ d.delimiter.char := by cases d.delimiter <;> decide
  simp [assignment, hkey.noFeed, hdelimiter, Quoted.lf_not_mem_quoteIfNeeded]

/-- The line ends in the blank behind the delimiter, or with a value that ends in no blank. -/
theorem Line.getLast?_assignment_ne (d : Dialect) (key value : Text) :
    (Line.assignment d key value).getLast? ≠ some '\r' := by
  by_cases hvalue : value = []
  · have hline : Line.assignment d key [] = key ++ [' ', d.delimiter.char] ++ [' '] := by
      rw [List.append_assoc]
      exact List.append_nil _
    rw [hvalue, hline, List.getLast?_concat]
    decide
  · have hquoted := List.getLast?_eq_some_getLast (quoteIfNeeded_ne_nil d hvalue)
    rw [assignment, List.getLast?_append, hquoted, Option.some_or, ← hquoted, ← trimEnd_quoteIfNeeded]
    exact fun hlast => absurd (isBlank_of_getLast?_trimEnd hlast) (by decide)

/-- **Tokenizing undoes quoting**: in every dialect, the line of a key that can be written and of any
    value at all is one line and one token, of that key and that value and without a comment. -/
theorem tokens_assignment (hkey : Key.Written d key) (hbom : key.head? ≠ some bom) (value : Text) :
    '\n' ∉ Line.assignment d key value ∧
    tokens d (Line.assignment d key value) =
      [⟨1, 1, Line.assignment d key value, .entry key value none⟩] := by
  have hfeed := Line.lf_not_mem_assignment hkey value
  have hreturn := Line.getLast?_assignment_ne d key value
  obtain ⟨first, more, rfl⟩ := List.exists_cons_of_ne_nil hkey.nonempty
  have hstart : trimStart (Line.assignment d (first :: more) value) =
      Line.assignment d (first :: more) value :=
    trimStart_cons (isBlank_of_trim_eq_cons hkey.trimmed) _
  have hne : Line.assignment d (first :: more) value ≠ [] := List.cons_ne_nil first _
  have hmark : (Line.assignment d (first :: more) value).head? ≠ some bom := hbom
  refine ⟨hfeed, ?_⟩
  rw [tokens_of_line d hne hfeed hreturn hmark,
    Token.ofLine_of_says (Line.says_quoted_assignment hkey value) hstart]

/-- Quotes, blanks, the backslash and the delimiter start comments; the key has a quote and a bracket
    in it, and the value a little of everything. -/
theorem tokens_assignment_sample :
    ∃ d key value line, d = { Dialect.standard with
        markers := ['"', '\'', ' ', '\\', ':'], delimiter := .colon } ∧
      key = "k\"[ ;".toList ∧ value = " \"\\\n\r\t':=\u0000\u3000".toList ∧
      line = "k\"[ ; : \" \\\"\\\\\\n\\r\\t':=\u0000\u3000\"".toList ∧
      Key.Written d key ∧ key.head? ≠ some bom ∧ '\n' ∉ line ∧
      tokens d line = [⟨1, 1, line, .entry key value none⟩] := by
  obtain ⟨d, hd⟩ : ∃ d, d = { Dialect.standard with
    markers := ['"', '\'', ' ', '\\', ':'], delimiter := .colon } := ⟨_, rfl⟩
  obtain ⟨key, hkey⟩ : ∃ key, key = "k\"[ ;".toList := ⟨_, rfl⟩
  obtain ⟨value, hvalue⟩ : ∃ value, value = " \"\\\n\r\t':=\u0000\u3000".toList := ⟨_, rfl⟩
  have hwritten : Key.Written d key := by rw [hd, hkey]; decide +kernel
  have hbom : key.head? ≠ some bom := by rw [hkey]; decide
  have hline : Line.assignment d key value =
      "k\"[ ; : \" \\\"\\\\\\n\\r\\t':=\u0000\u3000\"".toList := by
    rw [hd, hkey, hvalue]
    decide +kernel
  exact ⟨d, key, value, _, hd, hkey, hvalue, hline, hwritten, hbom, tokens_assignment hwritten hbom value⟩

end Assignments

end IniFile
