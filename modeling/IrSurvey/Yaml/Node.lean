import IrSurvey.Yaml.Token

/-!
Nodes: what the tokens of a document describe. A reference leads to a node by its number; a node has
the number that its anchor was given.
-/
namespace IrSurvey.Yaml

inductive Node
  | scalar (anchor : Option Nat) (tag : Option String) (style : Style) (text : String)
  | sequence (anchor : Option Nat) (items : List Node)
  | mapping (anchor : Option Nat) (members : List (Node × Node))
  | reference (number : Nat)
deriving Inhabited

namespace Node

/-- What stands where nothing is written. -/
def empty : Node :=
  .scalar none none .plain ""

mutual

/-- The last node inside a node, in the order of the text, whose anchor has a number. -/
def anchored? (n : Nat) : Node → Option Node
  | .scalar anchor tag style text =>
    if anchor = some n then some (.scalar anchor tag style text) else none
  | .sequence anchor items =>
    match anchoredItem? n items with
    | some found => some found
    | none => if anchor = some n then some (.sequence anchor items) else none
  | .mapping anchor members =>
    match anchoredMember? n members with
    | some found => some found
    | none => if anchor = some n then some (.mapping anchor members) else none
  | .reference _ => none

def anchoredItem? (n : Nat) : List Node → Option Node
  | [] => none
  | item :: items =>
    match anchoredItem? n items with
    | some found => some found
    | none => anchored? n item

def anchoredMember? (n : Nat) : List (Node × Node) → Option Node
  | [] => none
  | member :: members =>
    match anchoredMember? n members with
    | some found => some found
    | none =>
      match anchored? n member.2 with
      | some found => some found
      | none => anchored? n member.1

end

/-- The node that is meant inside a document: a reference means the node it leads to. -/
def target? (document : Node) : Node → Option Node
  | .reference n => document.anchored? n
  | node => some node

end Node
end IrSurvey.Yaml
