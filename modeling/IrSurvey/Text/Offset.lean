import IrSurvey.Text.Bracket

/-!
Byte offsets into the UTF-8 form of a text. A bracket is one byte and never part of another
character, so its offset is always between two characters.
-/
namespace IrSurvey.Text

/-- The bytes from an offset on, `none` beyond the end. -/
def bytesFrom? (s : String) (start : Nat) : Option (List UInt8) :=
  if start ≤ s.utf8ByteSize then some (s.toUTF8.toList.drop start) else none

/-- The offset at which the bracket closes that is open at `start`, if it closes at all. -/
def closeOffset? (opening closing : UInt8) (start : Nat) (bytes : List UInt8) : Option Nat :=
  (closeIndex? opening closing 0 bytes).map (start + ·)

/-- Two different characters in ASCII, of which one opens and one closes. -/
structure Brackets where
  opening : Char
  closing : Char
  opening_ne_closing : opening ≠ closing := by decide
  opening_ascii : opening.toNat < 128 := by decide
  closing_ascii : closing.toNat < 128 := by decide

namespace Brackets

def braces : Brackets := { opening := '{', closing := '}' }

def parentheses : Brackets := { opening := '(', closing := ')' }

def openingByte (b : Brackets) : UInt8 :=
  UInt8.ofNat b.opening.toNat

def closingByte (b : Brackets) : UInt8 :=
  UInt8.ofNat b.closing.toNat

/-- The offset at which the bracket closes that is open at `start`, if it closes at all; no answer
to a start beyond the end of the text. -/
def closeFrom? (b : Brackets) (text : String) (start : Nat) : Option (Option Nat) :=
  (bytesFrom? text start).map (closeOffset? b.openingByte b.closingByte start)

end Brackets
end IrSurvey.Text
