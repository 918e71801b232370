import IrSurvey.Text.Digit

/-!
Digits and numbers. A hexadecimal digit is written in either case, and a number that is written in
digits is read back.
-/
namespace IrSurvey.Text

/-- A hexadecimal digit, and whether it is written as a capital. -/
structure HexDigit where
  value : Fin 16
  capital : Bool
deriving DecidableEq, Repr

def HexDigit.spell (d : HexDigit) : Char :=
  if d.capital then (Nat.digitChar d.value).toUpper else Nat.digitChar d.value

/-- The digit of a value, in its small letter. -/
def HexDigit.ofLt {n : Nat} (h : n < 16) : HexDigit where
  value := ⟨n, h⟩
  capital := false

theorem hexValue?_spell (d : HexDigit) : hexValue? d.spell = some d.value.val := by
  obtain ⟨value, capital⟩ := d
  revert value capital
  decide

theorem hexValue?_digitChar {n : Nat} (h : n < 16) : hexValue? (Nat.digitChar n) = some n :=
  hexValue?_spell (.ofLt h)

/-- A character has a value if it is a digit in one of its two spellings. -/
theorem hexValue?_eq_some_iff {c : Char} {n : Nat} :
    hexValue? c = some n ↔ ∃ d : HexDigit, d.spell = c ∧ d.value.val = n := by
  constructor
  · intro h
    -- the three ranges of the definition, each with the digit that its code points spell
    have hdigit : ∀ k < 58, 48 ≤ k → Nat.digitChar (k - 48) = Char.ofNat k := by decide
    have hsmall : ∀ k < 103, 97 ≤ k → Nat.digitChar (k - 97 + 10) = Char.ofNat k := by decide
    have hcapital : ∀ k < 71, 65 ≤ k →
        (Nat.digitChar (k - 65 + 10)).toUpper = Char.ofNat k := by decide
    simp only [hexValue?, Char.isDigit, Bool.and_eq_true, decide_eq_true_eq, Char.le_def, ge_iff_le,
      UInt32.le_iff_toNat_le, Char.toNat_val] at h
    split at h
    next hc =>
        obtain ⟨hlow, hhigh⟩ : 48 ≤ c.toNat ∧ c.toNat ≤ 57 := hc
        refine ⟨⟨⟨c.toNat - 48, by omega⟩, false⟩, ?_, Option.some.inj h⟩
        exact (hdigit c.toNat (by omega) hlow).trans (Char.ofNat_toNat c)
    next =>
        split at h
        next hc =>
            obtain ⟨hlow, hhigh⟩ : 97 ≤ c.toNat ∧ c.toNat ≤ 102 := hc
            refine ⟨⟨⟨c.toNat - 97 + 10, by omega⟩, false⟩, ?_, Option.some.inj h⟩
            exact (hsmall c.toNat (by omega) hlow).trans (Char.ofNat_toNat c)
        next =>
            split at h
            next hc =>
                obtain ⟨hlow, hhigh⟩ : 65 ≤ c.toNat ∧ c.toNat ≤ 70 := hc
                refine ⟨⟨⟨c.toNat - 65 + 10, by omega⟩, true⟩, ?_, Option.some.inj h⟩
                exact (hcapital c.toNat (by omega) hlow).trans (Char.ofNat_toNat c)
            next => cases h
  · rintro ⟨d, rfl, rfl⟩
    exact hexValue?_spell d

/-- The number that hexadecimal digits spell. -/
def hexNumber (ds : List HexDigit) : Nat :=
  ds.foldl (fun n d => n * 16 + d.value.val) 0

theorem numberOf?_spell (ds : List HexDigit) :
    numberOf? 16 (ds.map HexDigit.spell) = some (hexNumber ds) := by
  unfold numberOf? hexNumber
  generalize 0 = n
  induction ds generalizing n with
  | nil => rfl
  | cons d ds ih =>
      have hd : d.value.val < 16 := d.value.isLt
      rw [List.map_cons, List.foldlM_cons, hexValue?_spell]
      change Option.bind (if d.value.val < 16 then some (n * 16 + d.value.val) else none) _ = _
      rw [if_pos hd]
      exact ih (n * 16 + d.value.val)

/-- A number in so many hexadecimal digits, with zeros in front. -/
def hexDigits : Nat → Nat → List HexDigit
  | 0, _ => []
  | k + 1, n => hexDigits k (n / 16) ++ [.ofLt (Nat.mod_lt n (by decide))]

theorem length_hexDigits (k n : Nat) : (hexDigits k n).length = k := by
  induction k generalizing n with
  | zero => rfl
  | succ k ih => rw [hexDigits, List.length_append, ih, List.length_singleton]

theorem hexNumber_hexDigits {k n : Nat} (hn : n < Nat.pow 16 k) :
    hexNumber (hexDigits k n) = n := by
  induction k generalizing n with
  | zero =>
      obtain rfl : n = 0 := Nat.lt_one_iff.1 hn
      rfl
  | succ k ih =>
      have hfront : n / 16 < Nat.pow 16 k := (Nat.div_lt_iff_lt_mul (by decide)).2 hn
      have hnumber := ih hfront
      rw [hexNumber] at hnumber
      rw [hexNumber, hexDigits, List.foldl_append, hnumber]
      exact Nat.div_add_mod' n 16

theorem toList_toString (n : Nat) : (toString n).toList = Nat.toDigits 10 n := by
  rw [Nat.toString_eq_repr, Nat.toList_repr]

theorem isDigit_of_mem_toString {n : Nat} {c : Char} (hc : c ∈ (toString n).toList) :
    c.isDigit = true := by
  rw [toList_toString] at hc
  exact Nat.isDigit_of_mem_toDigits (by decide) (by decide) hc

theorem toList_toString_ne_nil (n : Nat) : (toString n).toList ≠ [] := by
  rw [toList_toString]
  exact Nat.toDigits_ne_nil

theorem numberOf?_concat {b : Nat} (s : List Char) (c : Char) :
    numberOf? b (s ++ [c]) = (numberOf? b s).bind fun n =>
      (hexValue? c).bind fun d => if d < b then some (n * b + d) else none := by
  unfold numberOf?
  rw [List.foldlM_append]
  simp only [List.foldlM_cons, List.foldlM_nil, bind_pure]
  rfl

/-- The digits of a number in some base up to sixteen spell the number. -/
theorem numberOf?_toDigits {b : Nat} (hb : 1 < b) (hb' : b ≤ 16) (n : Nat) :
    numberOf? b (Nat.toDigits b n) = some n := by
  induction n using Nat.base_induction b hb with
  | single m hm =>
      rw [Nat.toDigits_of_lt_base hm]
      simp [numberOf?, hexValue?_digitChar (Nat.lt_of_lt_of_le hm hb'), hm]
  | digit m k hk hm ih =>
      rw [← Nat.toDigits_append_toDigits hb hm hk, Nat.toDigits_of_lt_base hk, numberOf?_concat, ih]
      simp [hexValue?_digitChar (Nat.lt_of_lt_of_le hk hb'), hk, Nat.mul_comm]

end IrSurvey.Text
