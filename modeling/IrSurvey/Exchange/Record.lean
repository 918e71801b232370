import IrSurvey.Json.Basic

/-!
Records. Their fields are looked up among members; members that no field asks for pass, and a field
must not be written twice. In JSON a record is an object with a member for each field, or an array
of the fields in their order.
-/
namespace IrSurvey

/-- What members say about a field: `some none` if nothing, `none` if they repeat it. -/
def onlyField? {α : Type} (members : List (String × α)) (key : String) : Option (Option α) :=
  match members.filter (·.1 = key) with
  | [] => some none
  | [m] => some (some m.2)
  | _ => none

namespace Json

/-- The fields of a record in the order of their keys. Written as an array, it has no more items
than fields, and at least the first `least`. -/
def fields? (least : Nat) (keys : List String) : Json → Option (List (Option Json))
  | .object members => keys.mapM (onlyField? members)
  | .array items =>
    if least ≤ items.length ∧ items.length ≤ keys.length then
      some (items.map some ++ List.replicate (keys.length - items.length) none)
    else none
  | _ => none

/-- A number of 64 bits. -/
def word? (v : Json) : Option Nat :=
  v.nat?.filter (· < UInt64.size)

def list? {α : Type} (item? : Json → Option α) (v : Json) : Option (List α) :=
  v.array?.bind (List.mapM item?)

/-- A field that may be left out or be null. -/
def optional? {α : Type} (value? : Json → Option α) : Option Json → Option (Option α)
  | none => some none
  | some .null => some none
  | some v => (value? v).map some

def ofOption {α : Type} (toJson : α → Json) (a : Option α) : Json :=
  a.elim .null toJson

end Json
end IrSurvey
