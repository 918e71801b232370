import IrSurvey.Listing.Qualifier
import IrSurvey.Text.Bracket
import IrSurvey.Text.Symbol

/-!
Function definitions as they stand in a listing: the pieces of a `define` header and the body. A
header may run over several lines; only its return type stays on one. The parameter list ends where
its parenthesis closes, the body where its brace does.
-/
namespace IrSurvey.Listing
open Text

/-- A header up to the parenthesis that opens its parameters. -/
structure Header where
  returnType : List Char
  name : List Char
  /-- The text after the parenthesis. -/
  rest : List Char

namespace Header

/-- The return type in the text between `define` and the sigil: what the leading qualifiers leave.
If they leave nothing, a gap before the sigil that has room for one more character lends a blank
type, and otherwise the last qualifier stands for the type. -/
def returnType? (lead : List Char) : Option (List Char) :=
  let core := dropQualifiers isBlank isHeaderQualifier (trimStart lead)
  let type := trimEnd core
  if ¬ lead.head?.any isBlank then none
  else if core = [] then
    let gap := lead.reverse.takeWhile isBlank
    if gap.tail.dropLast.any (· ≠ '\n') then some [] else (words lead).getLast?
  else if type.length = core.length ∨ '\n' ∈ type then none
  else some type

/-- Reads a header whose `define` is at the start of the text. No piece before the sigil may hold
one, so the sigil is the first. -/
def read? (s : List Char) : Option Header :=
  match "define".toList.isPrefixOf? s with
  | none => none
  | some s =>
    match s.dropWhile (· ≠ '@') with
    | [] => none
    | _ :: r =>
      match applied? r, returnType? (s.takeWhile (· ≠ '@')) with
      | some (name, rest), some returnType => some { returnType, name, rest }
      | _, _ => none

theorem length_rest_lt {s : List Char} {h : Header} (hs : read? s = some h) :
    h.rest.length < s.length := by
  unfold read? at hs
  split at hs
  next => cases hs
  next t ht =>
    split at hs
    next => cases hs
    next r hr =>
      split at hs
      next name rest type hn _ =>
        cases hs
        have h₁ := length_isPrefixOf?_le ht
        have h₂ := length_dropWhile_le (· ≠ '@') t
        have h₃ := length_applied?_lt hn
        rw [hr, List.length_cons] at h₂
        exact Nat.lt_of_lt_of_le (Nat.lt_trans h₃ h₂) h₁
      next => cases hs

end Header

/-- A definition cut out of a listing, its pieces still raw. -/
structure Definition where
  name : String
  returnType : String
  params : String
  body : String
  /-- The body ended with its brace, and not with the text. -/
  closed : Bool
deriving DecidableEq, Repr

namespace Definition

/-- Completes a header. There is no definition if the parameter list never closes, or if no brace
follows it on its last line. -/
def ofHeader? (h : Header) : Option Definition :=
  match splitClose? '(' ')' h.rest with
  | none => none
  | some (params, rest) =>
    match rest.dropWhile (fun c => c ≠ '{' && c ≠ '\n') with
    | '{' :: text =>
      let closing := splitClose? '{' '}' text
      some {
        name := String.ofList h.name
        returnType := String.ofList h.returnType
        params := String.ofList (trim params)
        body := String.ofList (closing.elim text Prod.fst)
        closed := closing.isSome }
    | _ => none

/-- The definitions of a text, in order of their headers. The search goes on inside the parameters
and the body of a definition. -/
def all (s : List Char) : List Definition :=
  match _h : Header.read? s with
  | some h => (ofHeader? h).toList ++ all h.rest
  | none =>
    match s with
    | [] => []
    | _ :: r => all r
termination_by s.length
decreasing_by
  · exact Header.length_rest_lt _h
  · exact Nat.lt_succ_self _

end Definition
end IrSurvey.Listing
