import IrSurvey.Yaml.Block
import IrSurvey.Yaml.Plain
import IrSurvey.Yaml.Tag

/-!
Lexemes: what stands at one place of a text, before its layout says which tokens that makes.
-/
namespace IrSurvey.Yaml

inductive Lexeme
  /-- A directive, or the sign at the start or the end of a document. -/
  | outside (t : Token)
  | opening (t : Token)
  | closing (t : Token)
  | comma
  | entry
  | key
  | value
  /-- Something that may be a key or start one. A plain scalar may take the end of its line. -/
  | content (t : Token) (broken : Bool)
  | block (t : Token)
deriving Repr

namespace Lexeme

/-- The signs that start nothing. -/
def isReserved (c : Char) : Bool :=
  c = '#' || c = '%' || c = '@' || c = '\x60'

def plain? (flow : Bool) (least : Nat) (c : Cell) (s : List Cell) : Option (Lexeme × List Cell) :=
  (Plain.read? flow least c s).map fun (w, broken, r) =>
    (content (.scalar .plain (String.ofList w)) broken, r)

def quoted? (quote : Char) (s : List Cell) : Option (Lexeme × List Cell) :=
  (Quoted.read? quote s).map fun (text, r) => (content (.scalar .quoted text) false, r)

/-- No block scalar stands in a flow collection. -/
def block? (flow : Bool) (style : Style) (least : Nat) (s : List Cell) :
    Option (Lexeme × List Cell) :=
  if flow then none
  else (Block.read? (style = .folded) least s).map fun (text, r) => (block (.scalar style text), r)

def named? (token : String → Token) (s : List Cell) : Option (Lexeme × List Cell) :=
  (Tag.name? s).map fun (name, r) => (content (token name) false, r)

/-- A sign that stands alone. Against a word it would be a part of that word. -/
def sign? (alone : Bool) (sign : Lexeme) (flow : Bool) (least : Nat) (c : Cell) (s : List Cell) :
    Option (Lexeme × List Cell) :=
  if alone then some (sign, s) else plain? flow least c s

/-- The lexeme that a character starts away from the start of a line. -/
def inLine? (flow : Bool) (least : Nat) (c : Cell) (s : List Cell) : Option (Lexeme × List Cell) :=
  match c.char with
  | '[' => some (opening .flowSequence, s)
  | '{' => some (opening .flowMapping, s)
  | ']' => some (closing .flowSequenceEnd, s)
  | '}' => some (closing .flowMappingEnd, s)
  | ',' => some (comma, s)
  | '&' => named? .anchor s
  | '*' => named? .reference s
  | '!' => (Tag.read? flow s).map fun (t, r) => (content t false, r)
  | '"' => quoted? '"' s
  | '\'' => quoted? '\'' s
  | '|' => block? flow .literal least s
  | '>' => block? flow .folded least s
  | '-' => sign? (endsWord s) entry flow least c s
  | '?' => sign? (flow || endsWord s) key flow least c s
  | ':' => sign? (flow || endsWord s) value flow least c s
  | first => if isReserved first ∨ c.isSpacing then none else plain? flow least c s

/-- The lexeme that a character starts. `least` is the least column of what stands inside the
innermost block collection. -/
def read? (flow : Bool) (least : Nat) (c : Cell) (s : List Cell) : Option (Lexeme × List Cell) :=
  if c.column = 0 ∧ c.char = '%' then (Tag.directive? s).map fun (t, r) => (outside t, r)
  else if isMarker '-' (c :: s) then some (outside .documentStart, s.drop 2)
  else if isMarker '.' (c :: s) then some (outside .documentEnd, s.drop 2)
  else inLine? flow least c s

theorem suffix_plain? {flow : Bool} {least : Nat} {c : Cell} {s : List Cell}
    {p : Lexeme × List Cell} (h : plain? flow least c s = some p) : p.2 <:+ s := by
  obtain ⟨q, hq, rfl⟩ := Option.map_eq_some_iff.1 h
  exact Plain.suffix_read? hq

theorem suffix_quoted? {quote : Char} {s : List Cell} {p : Lexeme × List Cell}
    (h : quoted? quote s = some p) : p.2 <:+ s := by
  obtain ⟨q, hq, rfl⟩ := Option.map_eq_some_iff.1 h
  exact Quoted.suffix_read? hq

theorem suffix_block? {flow : Bool} {style : Style} {least : Nat} {s : List Cell}
    {p : Lexeme × List Cell} (h : block? flow style least s = some p) : p.2 <:+ s := by
  unfold block? at h
  split at h
  · cases h
  · obtain ⟨q, hq, rfl⟩ := Option.map_eq_some_iff.1 h
    exact Block.suffix_read? hq

theorem suffix_named? {token : String → Token} {s : List Cell} {p : Lexeme × List Cell}
    (h : named? token s = some p) : p.2 <:+ s := by
  obtain ⟨q, hq, rfl⟩ := Option.map_eq_some_iff.1 h
  exact Tag.suffix_name? hq

theorem suffix_sign? {alone flow : Bool} {sign : Lexeme} {least : Nat} {c : Cell} {s : List Cell}
    {p : Lexeme × List Cell} (h : sign? alone sign flow least c s = some p) : p.2 <:+ s := by
  unfold sign? at h
  split at h
  · cases h; exact List.suffix_refl _
  · exact suffix_plain? h

theorem suffix_inLine? {flow : Bool} {least : Nat} {c : Cell} {s : List Cell}
    {p : Lexeme × List Cell} (h : inLine? flow least c s = some p) : p.2 <:+ s := by
  unfold inLine? at h
  split at h
  case h_6 => exact suffix_named? h
  case h_7 => exact suffix_named? h
  case h_8 =>
    obtain ⟨q, hq, rfl⟩ := Option.map_eq_some_iff.1 h
    exact Tag.suffix_read? hq
  case h_9 => exact suffix_quoted? h
  case h_10 => exact suffix_quoted? h
  case h_11 => exact suffix_block? h
  case h_12 => exact suffix_block? h
  case h_13 => exact suffix_sign? h
  case h_14 => exact suffix_sign? h
  case h_15 => exact suffix_sign? h
  case h_16 =>
    split at h
    · cases h
    · exact suffix_plain? h
  all_goals
    cases h
    exact List.suffix_refl _

theorem suffix_read? {flow : Bool} {least : Nat} {c : Cell} {s : List Cell}
    {p : Lexeme × List Cell} (h : read? flow least c s = some p) : p.2 <:+ s := by
  unfold read? at h
  split at h
  · obtain ⟨q, hq, rfl⟩ := Option.map_eq_some_iff.1 h
    exact Tag.suffix_directive? hq
  split at h
  · cases h; exact List.drop_suffix _ _
  split at h
  · cases h; exact List.drop_suffix _ _
  · exact suffix_inLine? h

end Lexeme
end IrSurvey.Yaml
