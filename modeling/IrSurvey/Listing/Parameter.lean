import IrSurvey.Listing.Basic
import IrSurvey.Text.Bracket
import IrSurvey.Text.Symbol

/-!
Parameter lists. The parameters stand between top-level commas; the name of one is its last word if
that is a local value, so that references inside its attributes belong to its type.
-/
namespace IrSurvey.Listing.Parameter
open Text

/-- The name that a word binds: what follows its percent sign. -/
def bound? (w : List Char) : Option (List Char) :=
  match w with
  | '%' :: name => if name ≠ [] ∧ name.all isLocalChar then some name else none
  | _ => none

/-- Reads one parameter. A word that stands alone is a type. -/
def ofPiece (s : List Char) : Parameter :=
  let last := (s.reverse.takeWhile (!isBlank ·)).reverse
  let front := (s.reverse.dropWhile (!isBlank ·)).reverse
  match bound? last with
  | some name =>
    if front = [] then { type := String.ofList s, name := none }
    else { type := String.ofList (trim front), name := some (String.ofList name) }
  | none => { type := String.ofList s, name := none }

/-- The parameters of a list. Blank places between commas make none. -/
def all (s : List Char) : List Parameter :=
  ((splitTopLevel s).filter (· ≠ [])).map ofPiece

end IrSurvey.Listing.Parameter
