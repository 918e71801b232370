import IrSurvey.Text.Blank
import IrSurvey.Text.Leading
import IrSurvey.Text.WordTable

/-!
Word characters, and the two classes of names that a listing spells with them: symbols after the
sigil `@` and local values after `%`.
-/
namespace IrSurvey.Text

def isWordChar (c : Char) : Bool :=
  c.isAlphanum || c = '_' || (128 ≤ c.toNat && inRanges wordRanges c.toNat)

/-- A character of a symbol name. -/
def isSymbolChar (c : Char) : Bool :=
  isWordChar c || c = '.' || c = '$'

/-- A character of a local name, where a hyphen may stand too. -/
def isLocalChar (c : Char) : Bool :=
  isSymbolChar c || c = '-'

/-- The name at the front of a text, and the text after the parenthesis that follows it. -/
def applied? (s : List Char) : Option (List Char × List Char) :=
  match trimStart (s.dropWhile isSymbolChar) with
  | '(' :: rest =>
    if s.takeWhile isSymbolChar = [] then none else some (s.takeWhile isSymbolChar, rest)
  | _ => none

theorem length_applied?_lt {s : List Char} {p : List Char × List Char} (h : applied? s = some p) :
    p.2.length < s.length := by
  have h₁ := length_dropWhile_le isSymbolChar s
  have h₂ := length_dropWhile_le isBlank (s.dropWhile isSymbolChar)
  unfold applied? at h
  split at h
  next rest hs =>
    split at h
    · cases h
    · cases h
      rw [← trimStart, hs, List.length_cons] at h₂
      exact Nat.lt_of_lt_of_le h₂ h₁
  next => cases h

end IrSurvey.Text
