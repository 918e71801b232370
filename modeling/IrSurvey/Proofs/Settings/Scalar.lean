import IrSurvey.Exchange.Settings
import IrSurvey.Proofs.Json.Numeral

/-!
Values without parts. Each is a JSON value and a scalar of YAML, and both formats find the same
number or the same truth value in it.
-/
namespace IrSurvey.Settings
open Yaml (Node)

/-- A value without parts. -/
inductive Scalar
  | null
  | bool (b : Bool)
  | number (n : Json.Numeral)
  | text (s : String)

def Scalar.toJson : Scalar → Json
  | .null => .null
  | .bool b => .bool b
  | .number n => .number n.literal
  | .text s => .string s

def nullWords : List String :=
  ["", "~", "null", "Null", "NULL"]

def boolWords : Bool → List String
  | true => ["true", "True", "TRUE"]
  | false => ["false", "False", "FALSE"]

/-- A text that needs no quotes: it starts with a letter and is no other value. -/
structure IsBareText (s : String) : Prop where
  letter : ∃ c r, s.toList = c :: r ∧ c.isAlpha = true
  not_null : s ∉ nullWords
  not_bool : ∀ b, s ∉ boolWords b

/-- A scalar node without properties that stands for a value. -/
inductive Scalar.IsNode : Scalar → Node → Prop
  | null {s : String} : s ∈ nullWords → IsNode .null (.scalar none none .plain s)
  | bool {b : Bool} {s : String} : s ∈ boolWords b → IsNode (.bool b) (.scalar none none .plain s)
  | number (n : Json.Numeral) : IsNode (.number n) (.scalar none none .plain n.literal)
  | quoted (s : String) : IsNode (.text s) (.scalar none none .quoted s)
  | bare {s : String} : IsBareText s → IsNode (.text s) (.scalar none none .plain s)

/-! ## Numbers -/

/-- A letter is no decimal digit. -/
theorem isDigit_eq_false_of_isAlpha {c : Char} (h : c.isAlpha = true) : c.isDigit = false := by
  rw [Bool.eq_false_iff]
  intro hdigit
  have hhigh : c.toNat ≤ '9'.toNat := (Char.isDigit_iff_toNat.1 hdigit).2
  have hlow : 'A'.toNat ≤ c.toNat := by
    rcases Bool.or_eq_true_iff.1 h with h | h
    · exact UInt32.le_iff_toNat_le.1 (of_decide_eq_true h).1
    · have hsmall : 'a'.toNat ≤ c.toNat :=
        UInt32.le_iff_toNat_le.1 (of_decide_eq_true (Bool.and_eq_true_iff.1 h).1)
      exact Nat.le_trans (by decide) hsmall
  exact absurd (Nat.le_trans hlow hhigh) (by decide)

theorem le_of_hexValue?_isAlpha {c : Char} (h : c.isAlpha = true) {d : Nat}
    (hd : Text.hexValue? c = some d) : 10 ≤ d := by
  rw [Text.hexValue?, isDigit_eq_false_of_isAlpha h, if_neg Bool.false_ne_true] at hd
  split at hd
  · cases hd
    omega
  split at hd
  · cases hd
    omega
  · cases hd

/-- A text that starts with no digit of a base spells no number in it. -/
theorem numberOf?_cons_eq_none {base : Nat} {c : Char}
    (h : ∀ d, Text.hexValue? c = some d → base ≤ d) (s : List Char) :
    Text.numberOf? base (c :: s) = none := by
  rw [Text.numberOf?, List.foldlM_cons]
  cases hc : Text.hexValue? c with
  | none => rfl
  | some d =>
      show Option.bind (if d < base then _ else none) _ = none
      rw [if_neg (Nat.not_lt.2 (h d hc))]
      rfl

/-- Without a sign or a zero in front, a number is read in base 10. -/
theorem wordOf?_cons {c : Char} {s : String} {r : List Char} (hs : s.toList = c :: r)
    (hplus : c ≠ '+') (hzero : c ≠ '0') :
    Node.wordOf? s = (Text.numberOf? 10 (c :: r)).filter (· < UInt64.size) := by
  unfold Node.wordOf?
  rw [hs]
  simp only
  split
  case h_6 =>
    rw [Node.wordIn?, if_neg]
    · split
      next h => exact absurd (List.cons.inj h).1 hplus
      next => rfl
    · split
      next h => exact absurd (List.cons.inj h).1 hplus
      next => exact List.cons_ne_nil _ _
  all_goals
    next h =>
      split at h
      next h' => exact absurd (List.cons.inj h').1 hplus
      next => exact absurd (List.cons.inj h).1 hzero

/-- Of the numerals of JSON, both formats read the same ones as numbers of 64 bits. -/
theorem wordOf?_literal (n : Json.Numeral) :
    Node.wordOf? n.literal = (Json.number n.literal).word? := by
  have hchars : n.literal.toList = n.chars := String.toList_ofList
  have hjson : (Json.number n.literal).word? =
      (Text.numberOf? 10 n.chars).filter (· < UInt64.size) := by
    rw [← hchars]
    rfl
  rcases n.chars_cases with h | ⟨c, r, h, hmark⟩ | ⟨c, r, h, hplus, hzero⟩
  · rw [hjson, h, Node.wordOf?, hchars, h]
    rfl
  · -- no integer has a fraction or an exponent
    have hnone : Text.numberOf? 10 ('0' :: c :: r) = none := by
      rcases hmark with rfl | rfl | rfl <;> rfl
    rw [hjson, h, hnone, Node.wordOf?, hchars, h]
    rcases hmark with rfl | rfl | rfl <;> rfl
  · rw [hjson, h, wordOf?_cons (hchars.trans h) hplus hzero]

/-! ## Truth values -/

/-- A truth value is one of few words, whatever its format. -/
theorem boolOf?_eq_some {s : String} {b : Bool} (h : Node.boolOf? s = some b) :
    s ∈ boolWords b := by
  unfold Node.boolOf? at h
  split at h
  case h_7 => cases h
  all_goals
    cases h
    decide

/-- No numeral is a truth value. -/
theorem boolOf?_literal (n : Json.Numeral) : Node.boolOf? n.literal = none := by
  have htable : ∀ b, ∀ s ∈ boolWords b,
      s.toList.head?.all (fun c => c ≠ '-' && !c.isDigit) = true := by decide
  refine Option.eq_none_iff_forall_ne_some.2 fun b hb => ?_
  have hhead := htable b n.literal (boolOf?_eq_some hb)
  obtain ⟨d, ds, hds, hd⟩ := n.exists_digit_whole
  rw [Json.Numeral.literal, String.toList_ofList, Json.Numeral.chars, hds] at hhead
  rcases n.sign_cases with hsign | hsign
  · rw [hsign] at hhead
    simp [hd] at hhead
  · rw [hsign] at hhead
    simp at hhead

/-! ## Both formats -/

/-- A value in a document that is written in both formats. -/
structure Agrees (document : Node) (v : Json) (node : Node) : Prop where
  word : document.word? node = v.word?
  bool : document.bool? node = v.bool?

theorem agrees_plain {document : Node} {v : Json} {s : String} (hword : Node.wordOf? s = v.word?)
    (hbool : Node.boolOf? s = v.bool?) : Agrees document v (.scalar none none .plain s) :=
  ⟨hword, hbool⟩

theorem Scalar.IsNode.agrees {v : Scalar} {node : Node} (h : v.IsNode node) (document : Node) :
    Agrees document v.toJson node := by
  cases h with
  | @null s hs =>
      have htable : ∀ s ∈ nullWords, Node.wordOf? s = none ∧ Node.boolOf? s = none := by decide
      exact agrees_plain (htable s hs).1 (htable s hs).2
  | @bool b s hs =>
      have htable : ∀ b, ∀ s ∈ boolWords b, Node.wordOf? s = none ∧ Node.boolOf? s = some b := by
        decide
      exact agrees_plain (htable b s hs).1 (htable b s hs).2
  | number n => exact agrees_plain (wordOf?_literal n) (boolOf?_literal n)
  | quoted s => exact ⟨rfl, rfl⟩
  | @bare s hs =>
      obtain ⟨c, r, hc, hletter⟩ := hs.letter
      have hword : Node.wordOf? s = none := by
        rw [wordOf?_cons hc, numberOf?_cons_eq_none fun d => le_of_hexValue?_isAlpha hletter]
        · rfl
        · rintro rfl
          exact absurd hletter (by decide)
        · rintro rfl
          exact absurd hletter (by decide)
      have hbool : Node.boolOf? s = none :=
        Option.eq_none_iff_forall_ne_some.2 fun b hb => hs.not_bool b (boolOf?_eq_some hb)
      exact agrees_plain hword hbool

end IrSurvey.Settings
