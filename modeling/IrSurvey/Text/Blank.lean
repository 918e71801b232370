import IrSurvey.Text.Digit
import IrSurvey.Text.Leading

/-!
Blanks: the characters with the property White_Space, and what is cut out of a text along them
(trimming, words). Everything here works on lists of characters.
-/
namespace IrSurvey.Text

def blankRanges : List (Nat × Nat) := [
  (0x9, 0xD), (0x20, 0x20), (0x85, 0x85), (0xA0, 0xA0), (0x1680, 0x1680), (0x2000, 0x200A),
  (0x2028, 0x2029), (0x202F, 0x202F), (0x205F, 0x205F), (0x3000, 0x3000)]

def isBlank (c : Char) : Bool :=
  inRanges blankRanges c.toNat

/-- A space or a tab: the blanks that never end a line. -/
def isGap (c : Char) : Bool :=
  c = ' ' || c = '\t'

def trimStart (s : List Char) : List Char :=
  s.dropWhile isBlank

def trimEnd (s : List Char) : List Char :=
  (s.reverse.dropWhile isBlank).reverse

def trim (s : List Char) : List Char :=
  trimEnd (trimStart s)

/-- The maximal stretches without a blank, in order. -/
def words (s : List Char) : List (List Char) :=
  (s.splitOnP isBlank).filter (· ≠ [])

/-- The first word, and what follows it and the blanks after it. -/
def firstWord (s : List Char) : List Char × List Char :=
  let t := trimStart s
  (t.takeWhile (!isBlank ·), trimStart (t.dropWhile (!isBlank ·)))

theorem length_firstWord_lt {s : List Char} (h : (firstWord s).1 ≠ []) :
    (firstWord s).2.length < s.length := by
  have h₁ : (trimStart s).length ≤ s.length := length_dropWhile_le isBlank s
  have h₂ := length_dropWhile_le isBlank ((trimStart s).dropWhile (!isBlank ·))
  have h₃ := congrArg List.length
    (List.takeWhile_append_dropWhile (p := (!isBlank ·)) (l := trimStart s))
  have h₄ := List.length_pos_iff.2 h
  simp only [firstWord, List.length_append] at *
  show ((((trimStart s).dropWhile (!isBlank ·))).dropWhile isBlank).length < s.length
  omega

/-- The last word, empty when the text is blank. -/
def lastWord (s : List Char) : List Char :=
  (words s).getLast?.getD []

end IrSurvey.Text
