import IrSurvey.Text.Blank

/-!
Bracket depth: where the bracket that a text stands in closes, and the pieces of a text between the
commas that stand in no bracket.
-/
namespace IrSurvey.Text

/-- The index at which the innermost of `depth + 1` open brackets closes the outermost one. The
elements may be characters or bytes. -/
def closeIndex? {α : Type} [DecidableEq α] (opening closing : α) : Nat → List α → Option Nat
  | _, [] => none
  | depth, a :: s =>
    if a = opening then (closeIndex? opening closing (depth + 1) s).map (· + 1)
    else if a = closing then
      match depth with
      | 0 => some 0
      | depth + 1 => (closeIndex? opening closing depth s).map (· + 1)
    else (closeIndex? opening closing depth s).map (· + 1)

/-- The text up to the bracket that closes, and the text after that bracket. -/
def splitClose? (opening closing : Char) (s : List Char) : Option (List Char × List Char) :=
  (closeIndex? opening closing 0 s).map fun n => (s.take n, s.drop (n + 1))

def isOpening (c : Char) : Bool :=
  c = '(' || c = '[' || c = '{' || c = '<'

def isClosing (c : Char) : Bool :=
  c = ')' || c = ']' || c = '}' || c = '>'

/-- The depth after a character; brackets of all kinds count together. The depth has no bound here.
One that is counted in 32 bits agrees with it in every text with fewer than 2 ^ 31 brackets, since
it is never further from 0 than there are brackets (`natAbs_bracketDepth_le`). -/
def depthAfter (depth : Int) (c : Char) : Int :=
  if isOpening c then depth + 1 else if isClosing c then depth - 1 else depth

/-- The stretches between the commas at depth 0, at least one. -/
def topLevelPieces (depth : Int) : List Char → List (List Char)
  | [] => [[]]
  | c :: s =>
    if c = ',' ∧ depth = 0 then [] :: topLevelPieces 0 s
    else (topLevelPieces (depthAfter depth c) s).modifyHead (c :: ·)

/-- The trimmed stretches between the commas outside all brackets. A blank stretch counts before a
comma and not at the end. -/
def splitTopLevel (s : List Char) : List (List Char) :=
  let pieces := (topLevelPieces 0 s).map trim
  if pieces.getLast? = some [] then pieces.dropLast else pieces

end IrSurvey.Text
