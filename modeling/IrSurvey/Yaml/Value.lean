import IrSurvey.Exchange.Record
import IrSurvey.Text.Digit
import IrSurvey.Yaml.Node

/-!
Values out of nodes. Only scalars without quotes are numbers and truth values, and literal ones that
a tag declares as such.
-/
namespace IrSurvey.Yaml.Node
open Text (numberOf?)

/-- The text of a scalar that may stand for more than text. -/
def untypedText? (type : String) : Node → Option String
  | .scalar _ tag style text =>
    if style = .plain ∨ (style = .literal ∧ tag = some ("tag:yaml.org,2002:" ++ type)) then
      some text
    else none
  | _ => none

def boolOf? : String → Option Bool
  | "true" => some true
  | "True" => some true
  | "TRUE" => some true
  | "false" => some false
  | "False" => some false
  | "FALSE" => some false
  | _ => none

/-- A number of 64 bits in a base, from one digit or more. -/
def wordIn? (base : Nat) (digits : List Char) : Option Nat :=
  if digits = [] then none else (numberOf? base digits).filter (· < UInt64.size)

/-- A number in base 16, 8 or 2 after a mark, or else in base 10 without needless zeros. -/
def wordOf? (s : String) : Option Nat :=
  let s := match s.toList with
    | '+' :: r => r
    | r => r
  match s with
  | '0' :: 'x' :: r => wordIn? 16 r
  | '0' :: 'o' :: r => wordIn? 8 r
  | '0' :: 'b' :: r => wordIn? 2 r
  | ['0'] => some 0
  | '0' :: _ => none
  | s => wordIn? 10 s

/-- A truth value in a document. -/
def bool? (document node : Node) : Option Bool :=
  (document.target? node).bind fun node => (node.untypedText? "bool").bind boolOf?

/-- A number of 64 bits in a document. -/
def word? (document node : Node) : Option Nat :=
  (document.target? node).bind fun node => (node.untypedText? "int").bind wordOf?

/-- A key of a record is a scalar of any kind. -/
def keyText? (document node : Node) : Option String :=
  match document.target? node with
  | some (.scalar _ _ _ text) => some text
  | _ => none

/-- The members of a record: those of a mapping, and none where nothing is written. -/
def members? (document node : Node) : Option (List (String × Node)) :=
  match document.target? node with
  | some (.mapping _ members) =>
    members.mapM fun (key, value) => (document.keyText? key).map (·, value)
  | some (.scalar _ _ style text) => if style = .plain ∧ text = "" then some [] else none
  | _ => none

/-- The fields of a record in the order of their keys. -/
def fields? (document : Node) (keys : List String) (node : Node) : Option (List (Option Node)) :=
  (document.members? node).bind fun members => keys.mapM (onlyField? members)

end IrSurvey.Yaml.Node
