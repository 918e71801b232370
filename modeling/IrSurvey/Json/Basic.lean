import IrSurvey.Text.Digit

/-!
JSON values. A number keeps its literal, so that no digit of it is lost; an object keeps its members
in order, also those that repeat a key.
-/
namespace IrSurvey

inductive Json
  | null
  | bool (b : Bool)
  | number (literal : String)
  | string (s : String)
  | array (items : List Json)
  | object (members : List (String × Json))
  /-- A string literal in which a surrogate escape stands unpaired, or an object with such a key:
  it follows the grammar and has no text. -/
  | unpaired
deriving Inhabited

namespace Json

def ofNat (n : Nat) : Json :=
  .number (toString n)

/-- The value of a literal of digits only. -/
def nat? : Json → Option Nat
  | .number literal => Text.numberOf? 10 literal.toList
  | _ => none

def bool? : Json → Option Bool
  | .bool b => some b
  | _ => none

def string? : Json → Option String
  | .string s => some s
  | _ => none

def array? : Json → Option (List Json)
  | .array items => some items
  | _ => none

/-- The last member with a key. -/
def get? (key : String) : Json → Option Json
  | .object members => (members.reverse.find? (·.1 = key)).map Prod.snd
  | _ => none

end Json
end IrSurvey
