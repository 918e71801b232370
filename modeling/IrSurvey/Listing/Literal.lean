import IrSurvey.Listing.Declaration

/-!
String literals: a `c` and a quoted payload on one line. A literal takes the name of the symbol that
the line around it binds.
-/
namespace IrSurvey.Listing
open Text

structure Literal where
  name : Option String
  payload : String
deriving DecidableEq, Repr

namespace Literal

/-- A payload ends at a quote and goes over no newline. -/
def isPayloadChar (c : Char) : Bool :=
  c ≠ '"' && c ≠ '\n'

/-- The payload of a literal at the front of a text, and the text after its closing quote. -/
def payload? (s : List Char) : Option (List Char × List Char) :=
  match s with
  | 'c' :: '"' :: r =>
    match r.dropWhile isPayloadChar with
    | '"' :: rest => some (r.takeWhile isPayloadChar, rest)
    | _ => none
  | _ => none

theorem length_payload?_lt {s : List Char} {p : List Char × List Char} (h : payload? s = some p) :
    p.2.length < s.length := by
  unfold payload? at h
  split at h
  next r =>
    have hr := length_dropWhile_le isPayloadChar r
    split at h
    next rest hs =>
      cases h
      rw [hs, List.length_cons] at hr
      exact Nat.lt_succ_of_lt (Nat.lt_succ_of_lt hr)
    next => cases h
  next => cases h

/-- The line around a place of a text. What stands in front of the place is given from its end. -/
def lineAround (seen rest : List Char) : List Char :=
  (seen.takeWhile (· ≠ '\n')).reverse ++ rest.takeWhile (· ≠ '\n')

/-- The literal of a payload on a line. An empty payload makes none. -/
def ofPayload? (line payload : List Char) : Option Literal :=
  if payload = [] then none
  else
    some {
      name := (Declaration.binding? isBlank line).map fun b => String.ofList b.1
      payload := String.ofList payload }

/-- The literals in a text, behind what has been passed over, which is given from its end. -/
def allFrom (seen s : List Char) : List Literal :=
  match _h : payload? s with
  | some (p, rest) =>
    let opened := '"' :: 'c' :: seen
    (ofPayload? (lineAround opened (p ++ '"' :: rest)) p).toList ++
      allFrom ('"' :: (p.reverse ++ opened)) rest
  | none =>
    match s with
    | [] => []
    | c :: r => allFrom (c :: seen) r
termination_by s.length
decreasing_by
  · exact length_payload?_lt _h
  · exact Nat.lt_succ_self _

/-- The literals of a text in order. -/
def all (s : List Char) : List Literal :=
  allFrom [] s

end Literal
end IrSurvey.Listing
