import IrSurvey.Json.Quoted
import IrSurvey.Text.Leading

/-!
Tokens of JSON. Between tokens may stand spaces, tabs, newlines and carriage returns.
-/
namespace IrSurvey.Json
open Text

inductive Token
  | openArray
  | closeArray
  | openObject
  | closeObject
  | comma
  | colon
  | null
  | bool (b : Bool)
  | number (literal : String)
  /-- A string; no text if a surrogate escape in it stands unpaired. -/
  | string (text : Option String)
deriving DecidableEq, Repr

namespace Token

def isSpace (c : Char) : Bool :=
  c = ' ' || c = '\t' || c = '\n' || c = '\r'

/-- One digit or more, and the text after them. -/
def digits? : List Char → Option (List Char × List Char)
  | c :: s =>
    if c.isDigit then some (c :: s.takeWhile Char.isDigit, s.dropWhile Char.isDigit) else none
  | [] => none

/-- An integer without a sign, and the text after it. A zero stands alone. -/
def integer? : List Char → Option (List Char × List Char)
  | '0' :: s => some (['0'], s)
  | s => digits? s

def fraction? : List Char → Option (List Char × List Char)
  | '.' :: s => (digits? s).map fun (ds, r) => ('.' :: ds, r)
  | s => some ([], s)

/-- The sign of an exponent, if it has one. -/
def sign : List Char → List Char × List Char
  | '+' :: s => (['+'], s)
  | '-' :: s => (['-'], s)
  | s => ([], s)

def exponent? : List Char → Option (List Char × List Char)
  | 'e' :: s => (digits? (sign s).2).map fun (ds, r) => ('e' :: ((sign s).1 ++ ds), r)
  | 'E' :: s => (digits? (sign s).2).map fun (ds, r) => ('E' :: ((sign s).1 ++ ds), r)
  | s => some ([], s)

/-- A number without a sign, and the text after it. -/
def unsigned? (s : List Char) : Option (List Char × List Char) :=
  (integer? s).bind fun (i, s) =>
    (fraction? s).bind fun (f, s) => (exponent? s).map fun (e, r) => (i ++ f ++ e, r)

/-- A number at the front of a text, and the text after it. -/
def number? : List Char → Option (List Char × List Char)
  | '-' :: s => (unsigned? s).map fun (n, r) => ('-' :: n, r)
  | s => unsigned? s

/-- The token at the front of a text, and the text after it. -/
def next? : List Char → Option (Token × List Char)
  | '[' :: s => some (.openArray, s)
  | ']' :: s => some (.closeArray, s)
  | '\x7b' :: s => some (.openObject, s)
  | '\x7d' :: s => some (.closeObject, s)
  | ',' :: s => some (.comma, s)
  | ':' :: s => some (.colon, s)
  | 'n' :: 'u' :: 'l' :: 'l' :: s => some (.null, s)
  | 't' :: 'r' :: 'u' :: 'e' :: s => some (.bool true, s)
  | 'f' :: 'a' :: 'l' :: 's' :: 'e' :: s => some (.bool false, s)
  | '"' :: s =>
    (Quoted.units? s).map fun (ns, r) => (.string ((Quoted.chars? ns).map String.ofList), r)
  | s => (number? s).map fun (n, r) => (.number (String.ofList n), r)

theorem digits?_eq_some {s : List Char} {p : List Char × List Char} (h : digits? s = some p) :
    p.1 ++ p.2 = s ∧ p.1 ≠ [] := by
  unfold digits? at h
  split at h
  · split at h
    · cases h
      simp [List.takeWhile_append_dropWhile]
    · cases h
  · cases h

theorem integer?_eq_some {s : List Char} {p : List Char × List Char} (h : integer? s = some p) :
    p.1 ++ p.2 = s ∧ p.1 ≠ [] := by
  unfold integer? at h
  split at h
  · cases h
    simp
  · exact digits?_eq_some h

theorem fraction?_eq_some {s : List Char} {p : List Char × List Char}
    (h : fraction? s = some p) : p.1 ++ p.2 = s := by
  unfold fraction? at h
  split at h
  · obtain ⟨q, hq, rfl⟩ := Option.map_eq_some_iff.1 h
    rw [← (digits?_eq_some hq).1]
    rfl
  · cases h
    rfl

theorem sign_append (s : List Char) : (sign s).1 ++ (sign s).2 = s := by
  unfold sign
  split <;> rfl

theorem exponent?_eq_some {s : List Char} {p : List Char × List Char}
    (h : exponent? s = some p) : p.1 ++ p.2 = s := by
  unfold exponent? at h
  split at h
  next s =>
    obtain ⟨q, hq, rfl⟩ := Option.map_eq_some_iff.1 h
    simp [(digits?_eq_some hq).1, sign_append]
  next s =>
    obtain ⟨q, hq, rfl⟩ := Option.map_eq_some_iff.1 h
    simp [(digits?_eq_some hq).1, sign_append]
  next =>
    cases h
    rfl

theorem unsigned?_eq_some {s : List Char} {p : List Char × List Char}
    (h : unsigned? s = some p) : p.1 ++ p.2 = s ∧ p.1 ≠ [] := by
  obtain ⟨i, hi, h⟩ := Option.bind_eq_some_iff.1 h
  obtain ⟨f, hf, h⟩ := Option.bind_eq_some_iff.1 h
  obtain ⟨e, he, rfl⟩ := Option.map_eq_some_iff.1 h
  simp [exponent?_eq_some he, fraction?_eq_some hf, integer?_eq_some hi]

/-- A number is what is cut off the front, and it is never empty. -/
theorem number?_eq_some {s : List Char} {p : List Char × List Char} (h : number? s = some p) :
    p.1 ++ p.2 = s ∧ p.1 ≠ [] := by
  unfold number? at h
  split at h
  · obtain ⟨q, hq, rfl⟩ := Option.map_eq_some_iff.1 h
    simp [(unsigned?_eq_some hq).1]
  · exact unsigned?_eq_some h

theorem length_number?_lt {s : List Char} {p : List Char × List Char} (h : number? s = some p) :
    p.2.length < s.length := by
  obtain ⟨hs, hp⟩ := number?_eq_some h
  have := List.length_pos_iff.2 hp
  rw [← hs, List.length_append]
  omega

theorem length_next?_lt {s : List Char} {p : Token × List Char} (h : next? s = some p) :
    p.2.length < s.length := by
  unfold next? at h
  split at h
  case h_10 s =>
    obtain ⟨q, hq, rfl⟩ := Option.map_eq_some_iff.1 h
    exact Nat.lt_succ_of_lt (Quoted.length_units?_lt hq)
  case h_11 =>
    obtain ⟨q, hq, rfl⟩ := Option.map_eq_some_iff.1 h
    exact length_number?_lt hq
  all_goals
    cases h
    simp only [List.length_cons]
    omega

/-- The tokens of a whole text. -/
def all? (s : List Char) : Option (List Token) :=
  match _h : s.dropWhile isSpace with
  | [] => some []
  | c :: r =>
    match _h' : next? (c :: r) with
    | some (t, r') => (all? r').map (t :: ·)
    | none => none
termination_by s.length
decreasing_by
  have h₁ := length_dropWhile_le isSpace s
  have h₂ := length_next?_lt _h'
  rw [_h] at h₁
  exact Nat.lt_of_lt_of_le h₂ h₁

/-- How a token is written. -/
def spell : Token → List Char
  | .openArray => ['[']
  | .closeArray => [']']
  | .openObject => ['\x7b']
  | .closeObject => ['\x7d']
  | .comma => [',']
  | .colon => [':']
  | .null => "null".toList
  | .bool true => "true".toList
  | .bool false => "false".toList
  | .number literal => literal.toList
  | .string (some s) => Quoted.encode s
  | .string none => "\"\\ud800\"".toList

end Token
end IrSurvey.Json
