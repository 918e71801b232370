import IrSurvey.Listing.Basic
import IrSurvey.Text.Blank
import IrSurvey.Text.Digit
import IrSurvey.Text.Line

/-!
Function bodies, read line by line. A line without its comment is blank, a numeric label, or an
instruction; a label keeps its place as the number of instructions before it.
-/
namespace IrSurvey.Listing.Body
open Text

/-- A line up to the first semicolon outside double quotes. -/
def uncomment (quoted : Bool) : List Char → List Char
  | [] => []
  | c :: s =>
    if c = '"' then c :: uncomment (!quoted) s
    else if c = ';' ∧ ¬ quoted then []
    else c :: uncomment quoted s

/-- What a line says. -/
def code (line : List Char) : List Char :=
  trim (uncomment false line)

/-- The digits in front of a colon at the start of a line of code. -/
def label? (code : List Char) : Option (List Char) :=
  match code.dropWhile isDigit with
  | ':' :: _ => if code.takeWhile isDigit = [] then none else some (code.takeWhile isDigit)
  | _ => none

inductive Item
  | label (digits : String)
  | instruction (code : String)
deriving DecidableEq, Repr

/-- The item on a line. What stands after the colon of a label is passed over. -/
def item? (line : List Char) : Option Item :=
  if code line = [] then none
  else match label? (code line) with
    | some digits => some (.label (String.ofList digits))
    | none => some (.instruction (String.ofList (code line)))

def items (s : List Char) : List Item :=
  (lines s).filterMap item?

def instructions (is : List Item) : List String :=
  is.filterMap fun
    | .instruction code => some code
    | .label _ => none

/-- The labels, each at the number of instructions before it, the first of them counted from
`before`. -/
def labels (before : Nat) : List Item → List BlockLabel
  | [] => []
  | .label digits :: is => { label := digits, position := before } :: labels before is
  | .instruction _ :: is => labels (before + 1) is

end IrSurvey.Listing.Body
