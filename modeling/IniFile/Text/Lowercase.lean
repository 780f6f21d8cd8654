/-
  Lowercase text.

  Names and boolean words are compared after full lowercasing.  Each character has its own lowercase
  form, with two exceptions to "one character becomes one character":

  - `İ` becomes `i` followed by the combining dot U+0307;
  - a capital sigma becomes `ς` at the END of a word and `σ` elsewhere.  A word ends here when the
    nearest character before it that is not case-ignorable is cased, and the nearest such character
    after it is not.

  Mathlib-free.
-/
import IniFile.Text.Basic
import IniFile.Text.CaseTable

namespace IniFile.Text

/-! ## One character -/

/-- The lowercase form of a character on its own, by rule for ASCII and by table beyond it. -/
def lowerChar (c : Char) : Char :=
  if c.toNat < 0x80 then c.toLower
  else
    let inRun (run : LowerRun) : Bool :=
      run.first ≤ c.toNat && c.toNat ≤ run.last && (c.toNat - run.first) % run.step == 0
    match lowerRuns.find? inRun with
    | some run => Char.ofNat (run.lower + (c.toNat - run.first))
    | none => c

/-! ## The end of a word -/

/-- Does a cased character come first, once case-ignorable ones are passed over? -/
def startsCased : Text → Bool
  | [] => false
  | c :: rest =>
    if inRanges ignorableRanges c.toNat then startsCased rest else inRanges casedRanges c.toNat

/-- A capital sigma with the text `before` it (nearest character FIRST) and `after` it. -/
def lowerSigma (before after : Text) : Char :=
  if startsCased before && !startsCased after then 'ς' else 'σ'

/-! ## Whole texts -/

/-- The lowercase form of a text that follows `before` (nearest character first). -/
def lowercaseAfter (before : Text) : Text → Text
  | [] => []
  | c :: rest =>
    let lowered : Text :=
      if c = 'Σ' then [lowerSigma before rest]
      else if c = 'İ' then ['i', '\u0307']
      else [lowerChar c]
    lowered ++ lowercaseAfter (c :: before) rest

/-- The **lowercase** form of a text, under which names are compared when case does not count. -/
def lowercase (t : Text) : Text := lowercaseAfter [] t

example : lowercase "ΣΑΣ".toList = "σας".toList := by decide +kernel
example : lowercase "İ".toList = "i̇".toList := by decide +kernel

end IniFile.Text
