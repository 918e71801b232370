import IrSurvey.Text.Digit
import IrSurvey.Yaml.Cell

/-!
Quoted scalars, and how line breaks fold: between two words gaps around a break vanish, a single
newline is read as a space, and of several breaks the first newline is dropped.
-/
namespace IrSurvey.Yaml

/-- What a run of gaps and breaks between two words stands for. -/
def joint (run : List Char) : List Char :=
  match run.filter isBreak with
  | [] => run
  | b :: bs => if b ≠ '\n' then b :: bs else if bs = [] then [' '] else bs

namespace Quoted
open Text (numberOf?)

/-- A part of a quoted scalar. -/
inductive Piece
  | char (c : Char)
  | spacing (c : Char)
  | escapedBreak
deriving DecidableEq, Repr

/-- How many hexadecimal digits follow a letter after a backslash. -/
def digitCount? : Char → Option Nat
  | 'x' => some 2
  | 'u' => some 4
  | 'U' => some 8
  | _ => none

def escape? : Char → Option Char
  | '0' => some '\x00'
  | 'a' => some '\x07'
  | 'b' => some '\x08'
  | 't' => some '\t'
  | '\t' => some '\t'
  | 'n' => some '\n'
  | 'v' => some '\x0b'
  | 'f' => some '\x0c'
  | 'r' => some '\r'
  | 'e' => some '\x1b'
  | ' ' => some ' '
  | '"' => some '"'
  | '/' => some '/'
  | '\\' => some '\\'
  | 'N' => some '\u0085'
  | '_' => some '\u00a0'
  | 'L' => some '\u2028'
  | 'P' => some '\u2029'
  | _ => none

/-- The character with a number, none for a surrogate or a number beyond Unicode. -/
def charOf? (n : Nat) : Option Char :=
  if n.isValidChar then some (Char.ofNat n) else none

/-- The piece that a backslash starts, and the text after it. -/
def escapedPiece? : List Cell → Option (Piece × List Cell)
  | [] => none
  | c :: s =>
    if c.isBreak then some (.escapedBreak, s)
    else
      match digitCount? c.char with
      | some n =>
        if (s.take n).length < n then none
        else
          ((numberOf? 16 ((s.take n).map Cell.char)).bind charOf?).map fun c => (.char c, s.drop n)
      | none => (escape? c.char).map fun c => (.char c, s)

theorem suffix_escapedPiece? {s : List Cell} {p : Piece × List Cell}
    (h : escapedPiece? s = some p) : p.2 <:+ s := by
  unfold escapedPiece? at h
  split at h
  next => cases h
  next c s =>
    split at h
    · cases h; exact List.suffix_cons _ _
    split at h
    next n _ =>
      split at h
      · cases h
      obtain ⟨c, _, rfl⟩ := Option.map_eq_some_iff.1 h
      exact (List.drop_suffix n s).trans (List.suffix_cons _ _)
    next =>
      obtain ⟨c, _, rfl⟩ := Option.map_eq_some_iff.1 h
      exact List.suffix_cons _ _

/-- A character that stands for itself. -/
def plainPiece (c : Cell) : Piece :=
  if c.isSpacing then .spacing c.char else .char c.char

/-- The pieces up to the closing double quote, and the text after it. No document starts or ends
in between. -/
def double? (s : List Cell) : Option (List Piece × List Cell) :=
  match s with
  | [] => none
  | c :: r =>
    if atMarker (c :: r) then none
    else if c.char = '"' then some ([], r)
    else if c.char = '\\' then
      match _h : escapedPiece? r with
      | some (p, r) => (double? r).map fun (ps, r) => (p :: ps, r)
      | none => none
    else (double? r).map fun (ps, r) => (plainPiece c :: ps, r)
termination_by s.length
decreasing_by
  · exact Nat.lt_succ_of_le (suffix_escapedPiece? _h).length_le
  · exact Nat.lt_succ_self _

/-- The pieces up to the closing single quote; two quotes stand for one. -/
def single? : List Cell → Option (List Piece × List Cell)
  | [] => none
  | [c] => if c.char = '\'' then some ([], []) else none
  | c :: d :: r =>
    if atMarker (c :: d :: r) then none
    else if c.char = '\'' ∧ d.char = '\'' then (single? r).map fun (ps, r) => (.char '\'' :: ps, r)
    else if c.char = '\'' then some ([], d :: r)
    else (single? (d :: r)).map fun (ps, r) => (plainPiece c :: ps, r)

/-- What stands for the run before the next character, given last character first. After an escaped
break only further breaks count. -/
def runText (escaped : Bool) (run : List Char) : List Char :=
  if escaped then run.reverse.filter isBreak else joint run.reverse

/-- The text of pieces. `run` is the spacing since the last character, last first, and `escaped` says
that an escaped break began it. -/
def textFrom (escaped : Bool) (run : List Char) : List Piece → List Char
  | [] => runText escaped run
  | .char c :: ps => runText escaped run ++ c :: textFrom false [] ps
  | .spacing c :: ps => textFrom escaped (c :: run) ps
  | .escapedBreak :: ps => runText escaped run ++ textFrom true [] ps

/-- The text of a scalar after its opening quote, and the text after the scalar. -/
def read? (quote : Char) (s : List Cell) : Option (String × List Cell) :=
  (if quote = '"' then double? s else single? s).map fun (ps, r) =>
    (String.ofList (textFrom false [] ps), r)

theorem suffix_double? {s : List Cell} {p : List Piece × List Cell} (h : double? s = some p) :
    p.2 <:+ s := by
  fun_induction double? s generalizing p with
  | case1 => cases h
  | case2 => cases h
  | case3 c r => cases h; exact List.suffix_cons _ _
  | case4 c r _ _ _ p' r' he ih =>
    obtain ⟨q, hq, rfl⟩ := Option.map_eq_some_iff.1 h
    exact ((ih hq).trans (suffix_escapedPiece? he)).trans (List.suffix_cons _ _)
  | case5 => cases h
  | case6 c r _ _ _ ih =>
    obtain ⟨q, hq, rfl⟩ := Option.map_eq_some_iff.1 h
    exact (ih hq).trans (List.suffix_cons _ _)

theorem suffix_single? {s : List Cell} {p : List Piece × List Cell} (h : single? s = some p) :
    p.2 <:+ s := by
  fun_induction single? s generalizing p with
  | case1 => cases h
  | case2 c => cases h; exact List.suffix_cons _ _
  | case3 => cases h
  | case4 => cases h
  | case5 c d r _ _ ih =>
    obtain ⟨q, hq, rfl⟩ := Option.map_eq_some_iff.1 h
    exact ((ih hq).trans (List.suffix_cons _ _)).trans (List.suffix_cons _ _)
  | case6 c d r => cases h; exact List.suffix_cons _ _
  | case7 c d r _ _ _ ih =>
    obtain ⟨q, hq, rfl⟩ := Option.map_eq_some_iff.1 h
    exact (ih hq).trans (List.suffix_cons _ _)

theorem suffix_read? {quote : Char} {s : List Cell} {p : String × List Cell}
    (h : read? quote s = some p) : p.2 <:+ s := by
  obtain ⟨q, hq, rfl⟩ := Option.map_eq_some_iff.1 h
  split at hq
  · exact suffix_double? hq
  · exact suffix_single? hq

end Quoted
end IrSurvey.Yaml
