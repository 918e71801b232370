import IrSurvey.Listing.Basic
import IrSurvey.Listing.Qualifier
import IrSurvey.Text.Leading
import IrSurvey.Text.Symbol

/-!
Global declarations. Each stands on one line: a symbol, an equals sign, qualifiers, the keyword
`global` or `constant`, and a tail. Only spaces and tabs count as gaps here.
-/
namespace IrSurvey.Listing
open Text

namespace Declaration

/-- The text after a keyword at the front. A word character after the keyword makes it another
word. -/
def afterKeyword? (kind : GlobalKind) (s : List Char) : Option (List Char) :=
  match kind.keyword.toList.isPrefixOf? s with
  | some r => if r.head?.any isWordChar then none else some r
  | none => none

def keyword? (s : List Char) : Option (GlobalKind × List Char) :=
  match afterKeyword? .global s with
  | some r => some (.global, r)
  | none => (afterKeyword? .constant s).map fun r => (.constant, r)

theorem length_afterKeyword?_le {kind : GlobalKind} {s r : List Char}
    (h : afterKeyword? kind s = some r) : r.length ≤ s.length := by
  unfold afterKeyword? at h
  split at h
  next t ht =>
    split at h
    next => cases h
    next =>
      cases h
      exact length_isPrefixOf?_le ht
  next => cases h

theorem length_keyword?_le {s : List Char} {p : GlobalKind × List Char} (h : keyword? s = some p) :
    p.2.length ≤ s.length := by
  unfold keyword? at h
  split at h
  next r hr =>
    cases h
    exact length_afterKeyword?_le hr
  next =>
    obtain ⟨r, hr, rfl⟩ := Option.map_eq_some_iff.1 h
    exact length_afterKeyword?_le hr

/-- The symbol that is bound at the front of a text, and the text after its equals sign. -/
def binding? (gap : Char → Bool) (s : List Char) : Option (List Char × List Char) :=
  match s.dropWhile gap with
  | '@' :: s =>
    match (s.dropWhile isSymbolChar).dropWhile gap with
    | '=' :: r =>
      if s.takeWhile isSymbolChar = [] then none else some (s.takeWhile isSymbolChar, r)
    | _ => none
  | _ => none

theorem length_binding?_lt {gap : Char → Bool} {s : List Char} {p : List Char × List Char}
    (h : binding? gap s = some p) : p.2.length < s.length := by
  unfold binding? at h
  split at h
  next t ht =>
    split at h
    next r hr =>
      split at h
      next => cases h
      next =>
        cases h
        have h₁ := length_dropWhile_le gap s
        have h₂ := length_dropWhile_le isSymbolChar t
        have h₃ := length_dropWhile_le gap (t.dropWhile isSymbolChar)
        rw [ht, List.length_cons] at h₁
        rw [hr, List.length_cons] at h₃
        show r.length < s.length
        omega
    next => cases h
  next => cases h

/-- The global that is declared at the front of a text, its tail trimmed, and the text after its
line. -/
def read? (s : List Char) : Option (Global × List Char) :=
  match binding? isGap s with
  | none => none
  | some (name, r) =>
    (keyword? (dropQualifiers isGap isGlobalQualifier (r.dropWhile isGap))).map fun (kind, t) =>
      ({ name := String.ofList name, kind, tail := String.ofList (trim (t.takeWhile (· ≠ '\n'))) },
        t.dropWhile (· ≠ '\n'))

theorem length_read?_lt {s : List Char} {p : Global × List Char} (h : read? s = some p) :
    p.2.length < s.length := by
  unfold read? at h
  split at h
  next => cases h
  next name r hr =>
    obtain ⟨q, hq, rfl⟩ := Option.map_eq_some_iff.1 h
    have h₁ : r.length < s.length := length_binding?_lt hr
    have h₂ := length_dropWhile_le isGap r
    have h₃ := length_dropQualifiers_le isGap isGlobalQualifier (r.dropWhile isGap)
    have h₄ := length_keyword?_le hq
    have h₅ := length_dropWhile_le (· ≠ '\n') q.2
    show (q.2.dropWhile (· ≠ '\n')).length < s.length
    omega

/-- The declaration at the front of a text, if a line starts there. -/
def front? (startsLine : Bool) (s : List Char) : Option (Global × List Char) :=
  if startsLine then read? s else none

theorem length_front?_lt {startsLine : Bool} {s : List Char} {p : Global × List Char}
    (h : front? startsLine s = some p) : p.2.length < s.length := by
  cases startsLine with
  | true => exact length_read?_lt h
  | false => cases h

/-- The declarations of a text in order. The search goes on behind the line of a declaration. -/
def allFrom (startsLine : Bool) (s : List Char) : List Global :=
  match _h : front? startsLine s with
  | some (g, rest) => g :: allFrom false rest
  | none =>
    match s with
    | [] => []
    | c :: r => allFrom (c = '\n') r
termination_by s.length
decreasing_by
  · exact length_front?_lt _h
  · exact Nat.lt_succ_self _

def all (s : List Char) : List Global :=
  allFrom true s

end Declaration
end IrSurvey.Listing
