import IrSurvey.Text.Blank

/-!
The characters of a YAML text with the places where they stand. Most line breaks are newlines here;
only the line and paragraph separators keep their own form.
-/
namespace IrSurvey.Yaml

/-- A character, its line and column, both counted from zero, and the bytes before it on its line. -/
structure Cell where
  char : Char
  line : Nat
  column : Nat
  offset : Nat
deriving DecidableEq, Repr

/-- The characters that a text may hold. -/
def isAllowed (c : Char) : Bool :=
  c = '\t' || c = '\n' || c = '\r' || c = '\u0085' || (0x20 ≤ c.toNat && c.toNat ≤ 0x7E) ||
    (0xA0 ≤ c.toNat && c.toNat ≠ 0xFFFE && c.toNat ≠ 0xFFFF)

def isBreak (c : Char) : Bool :=
  c = '\n' || c = '\u2028' || c = '\u2029'

/-- A carriage return, alone or before a newline, and the next-line character break a line as a
newline does. -/
def unifyBreaks : List Char → List Char
  | [] => []
  | '\r' :: '\n' :: s => '\n' :: unifyBreaks s
  | c :: s => (if c = '\r' ∨ c = '\u0085' then '\n' else c) :: unifyBreaks s

def place (line column offset : Nat) : List Char → List Cell
  | [] => []
  | c :: s =>
    ⟨c, line, column, offset⟩ ::
      if isBreak c then place (line + 1) 0 0 s else place line (column + 1) (offset + c.utf8Size) s

/-- The cells of a text, none if it holds a character that no text may hold. -/
def cells? (s : List Char) : Option (List Cell) :=
  if s.all isAllowed then some (place 0 0 0 (unifyBreaks s)) else none

namespace Cell

def isBreak (c : Cell) : Bool :=
  Yaml.isBreak c.char

def isGap (c : Cell) : Bool :=
  Text.isGap c.char

def isSpacing (c : Cell) : Bool :=
  c.isGap || c.isBreak

/-- A byte order mark that starts a line. -/
def isOrderMark (c : Cell) : Bool :=
  c.column = 0 && c.char = '\ufeff'

end Cell

/-- No word goes on here. -/
def endsWord (s : List Cell) : Bool :=
  s.head?.all Cell.isSpacing

/-- Three equal signs that start a line and make a word. -/
def isMarker (sign : Char) : List Cell → Bool
  | a :: b :: c :: s =>
    a.column = 0 && a.char = sign && b.char = sign && c.char = sign && endsWord s
  | _ => false

/-- A document starts or ends here. -/
def atMarker (s : List Cell) : Bool :=
  isMarker '-' s || isMarker '.' s

/-- The characters of names: ASCII letters and digits, the hyphen and the underscore. -/
def isNameChar (c : Char) : Bool :=
  c.isAlphanum || c = '-' || c = '_'

def nameAt (s : List Cell) : List Char × List Cell :=
  ((s.takeWhile (isNameChar ·.char)).map Cell.char, s.dropWhile (isNameChar ·.char))

/-- The text after the end of a line on which only a comment is left. -/
def afterLine? (s : List Cell) : Option (List Cell) :=
  let s := s.dropWhile Cell.isGap
  let s := if s.head?.any (·.char = '#') then s.dropWhile (!Cell.isBreak ·) else s
  match s with
  | [] => some []
  | c :: r => if c.isBreak then some r else none

theorem suffix_afterLine? {s r : List Cell} (h : afterLine? s = some r) : r <:+ s := by
  have hs : (if (s.dropWhile Cell.isGap).head?.any (·.char = '#') then
      (s.dropWhile Cell.isGap).dropWhile (!Cell.isBreak ·) else s.dropWhile Cell.isGap) <:+ s := by
    split
    · exact (List.dropWhile_suffix _).trans (List.dropWhile_suffix _)
    · exact List.dropWhile_suffix _
  simp only [afterLine?] at h
  split at h
  next => cases h; exact List.nil_suffix
  next c r' he =>
    rw [he] at hs
    split at h
    · cases h; exact (List.suffix_cons c _).trans hs
    · cases h

end IrSurvey.Yaml
