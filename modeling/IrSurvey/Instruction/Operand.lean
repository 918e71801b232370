import IrSurvey.Text.Bracket
import IrSurvey.Text.Digit

/-!
Operands as they are shown. An operand is a type, attributes and a value; the value is its last
word, unless that closes a bracket.
-/
namespace IrSurvey.Operand
open Text

/-- The most characters shown of a value that is neither a number nor a reference. -/
def displayWidth : Nat := 20

/-- The most arguments shown of a call. -/
def shownArguments : Nat := 5

def isInteger (s : List Char) : Bool :=
  match s with
  | '-' :: digits => digits ≠ [] && digits.all isDigit
  | digits => digits ≠ [] && digits.all isDigit

/-- A reference loses its sigil. -/
def simplify (s : List Char) : List Char :=
  let v := trim s
  if isInteger v then v
  else match v with
    | '%' :: name => if name = [] then "var".toList else name
    | '@' :: name => if name = [] then "global".toList else name
    | _ => v.take displayWidth

/-- The value of an operand. An aggregate or a constant expression ends in a bracket and has no
single word for its value, so the whole operand is shown. -/
def value (operand : List Char) : List Char :=
  let word := lastWord operand
  if word.getLast?.any isClosing then simplify operand else simplify word

/-- An argument list, cut after the arguments that are shown. -/
def arguments (s : List Char) : List Char :=
  let args := splitTopLevel s
  let shown := (args.take shownArguments).map value
  ", ".toList.intercalate (if shownArguments < args.length then shown ++ ["...".toList] else shown)

end IrSurvey.Operand
