import IrSurvey.Marker.Kind
import IrSurvey.Text.Leading

/-!
The marks by which a technique is recognised: words, and phrases that run from one word to the last
occurrence of another on the line.
-/
namespace IrSurvey
open Text

/-- Simple case folding, as far as it reaches ASCII letters: the capitals, the long s and the Kelvin
sign. A caseless word is written in small letters and compared with folded characters. -/
def Text.fold (c : Char) : Char :=
  if c = 'ſ' then 's' else if c = '\u212A' then 'k' else c.toLower

inductive Mark
  | word (w : String) (nonempty : w.toList ≠ [] := by decide)
  | phrase (first last : String) (nonempty : first.toList ≠ [] := by decide)
deriving Repr

/-- The text after the last occurrence of a word that starts on the line at the front. -/
def afterLast? (w : List Char) : List Char → Option (List Char)
  | [] => w.isPrefixOf? []
  | c :: s =>
    match if c = '\n' then none else afterLast? w s with
    | some r => some r
    | none => w.isPrefixOf? (c :: s)

theorem length_afterLast?_le {w s r : List Char} (h : afterLast? w s = some r) :
    r.length ≤ s.length := by
  induction s with
  | nil => exact length_isPrefixOf?_le h
  | cons c s ih =>
    unfold afterLast? at h
    split at h
    next r' hr =>
      cases h
      split at hr
      next => cases hr
      next => exact Nat.le_succ_of_le (ih hr)
    next => exact length_isPrefixOf?_le h

namespace Mark

/-- The text after a mark at the front of a text. -/
def after? : Mark → List Char → Option (List Char)
  | .word w _, s => w.toList.isPrefixOf? s
  | .phrase first last _, s =>
    match first.toList.isPrefixOf? s with
    | some r => afterLast? last.toList r
    | none => none

theorem length_isPrefixOf?_lt {w s r : List Char} (hw : w ≠ []) (h : w.isPrefixOf? s = some r) :
    r.length < s.length := by
  have := List.length_pos_iff.2 hw
  rw [isPrefixOf?_eq_some_iff.1 h, List.length_append]
  omega

theorem length_after?_lt {m : Mark} {s r : List Char} (h : m.after? s = some r) :
    r.length < s.length := by
  cases m with
  | word w hw => exact length_isPrefixOf?_lt hw h
  | phrase first last hw =>
    simp only [after?] at h
    split at h
    next t ht => exact Nat.lt_of_le_of_lt (length_afterLast?_le h) (length_isPrefixOf?_lt hw ht)
    next => cases h

/-- How a mark is written as a pattern. -/
def pattern : Mark → String
  | .word w _ => w
  | .phrase first last _ => first ++ ".*" ++ last

/-- The marks in a text, counted from the left. A mark ends before the next one starts; of two that
start together the earlier in the list counts. -/
def count (marks : List Mark) (s : List Char) : Nat :=
  match _h : marks.findSome? (·.after? s) with
  | some r => count marks r + 1
  | none =>
    match s with
    | [] => 0
    | _ :: s => count marks s
termination_by s.length
decreasing_by
  · obtain ⟨m, _, hm⟩ := List.exists_of_findSome?_eq_some _h
    exact length_after?_lt hm
  · exact Nat.lt_succ_self _

end Mark

/-- The marks of a technique. Those of a caseless signature are written in small letters and sought
in the folded text. -/
structure Signature where
  caseless : Bool
  marks : List Mark

namespace Signature

def pattern (s : Signature) : String :=
  (if s.caseless then "(?i)" else "") ++ "|".intercalate (s.marks.map Mark.pattern)

def count (s : Signature) (text : List Char) : Nat :=
  Mark.count s.marks (if s.caseless then text.map fold else text)

end Signature

def MarkerKind.signature : MarkerKind → Signature
  | .stringEncryption => { caseless := false, marks := [.word "@__obf_key"] }
  | .opaquePredicate => { caseless := true, marks := [.word "opaque", .word "obfuscated"] }
  | .bogusCode => { caseless := false, marks := [.word "0xDEADBEEF", .word "0xCAFEBABE"] }
  | .fakeLoop => { caseless := true, marks := [.word "fake", .phrase "dummy" "loop"] }
  | .virtualization =>
    { caseless := true, marks := [.word "@__obf_decrypt", .word "@__vm_", .word "bytecode"] }
  | .controlFlowFlattening =>
    { caseless := true, marks := [.phrase "switch" "dispatch", .word "flatten"] }

end IrSurvey
