import Mathlib.Data.List.Forall2
import IrSurvey.Json.Quoted
import IrSurvey.Proofs.Text.Digit

/-!
Strings between quotes. A character may be written as itself or as an escape, also as two halves,
and is read back from each of its spellings. What is written for a character is one of them.
-/
namespace IrSurvey.Json.Quoted
open Text

variable {s : List Char} {ws : List (List Char)}

/-- The escape of a code unit in four digits. -/
def unitEscape (a b c d : HexDigit) : List Char :=
  ['\\', 'u', a.spell, b.spell, c.spell, d.spell]

/-- The escapes of one letter. -/
def letters : List (Char × Char) :=
  [('"', '"'), ('\\', '\\'), ('/', '/'), ('b', '\x08'), ('f', '\x0c'), ('n', '\n'), ('r', '\r'),
    ('t', '\t')]

/-- How a character may be written between quotes. -/
inductive Spells (x : Char) : List Char → Prop
  | itself : 0x20 ≤ x.toNat → x ≠ '"' → x ≠ '\\' → Spells x [x]
  | letter {e : Char} : (e, x) ∈ letters → Spells x ['\\', e]
  | unit {a b c d : HexDigit} : hexNumber [a, b, c, d] = x.toNat → Spells x (unitEscape a b c d)
  | halves {a b c d a' b' c' d' : HexDigit} :
      isHighHalf (hexNumber [a, b, c, d]) = true → isLowHalf (hexNumber [a', b', c', d']) = true →
      0x10000 + (hexNumber [a, b, c, d] - 0xD800) * 0x400 + (hexNumber [a', b', c', d'] - 0xDC00) =
        x.toNat →
      Spells x (unitEscape a b c d ++ unitEscape a' b' c' d')

/-- No character is half of a surrogate pair. -/
theorem isHalf_toNat (c : Char) : isHighHalf c.toNat = false ∧ isLowHalf c.toNat = false := by
  have hvalid : c.toNat < 0xD800 ∨ 0xDFFF < c.toNat ∧ c.toNat < 0x110000 := c.valid
  simp only [isHighHalf, isLowHalf, Bool.and_eq_false_iff, decide_eq_false_iff_not]
  omega

/-- The units of a character: in front of others they stand for it. -/
def AreUnits (ns : List Nat) (x : Char) : Prop :=
  ∀ ms, chars? (ns ++ ms) = (chars? ms).map (x :: ·)

theorem areUnits_toNat (x : Char) : AreUnits [x.toNat] x := by
  intro ms
  obtain ⟨hhigh, hlow⟩ := isHalf_toNat x
  cases ms with
  | nil => simp [chars?, hhigh, hlow]
  | cons m ms => simp [chars?, hhigh, hlow]

theorem units?_unitEscape_append (a b c d : HexDigit) (s : List Char) :
    units? (unitEscape a b c d ++ s) =
      (units? s).map fun (ns, r) => (hexNumber [a, b, c, d] :: ns, r) := by
  have hnumber : numberOf? 16 [a.spell, b.spell, c.spell, d.spell] =
      some (hexNumber [a, b, c, d]) := numberOf?_spell [a, b, c, d]
  show units? ('\\' :: 'u' :: a.spell :: b.spell :: c.spell :: d.spell :: s) = _
  rw [units?, hnumber]

theorem units?_letter_append {e x : Char} (h : (e, x) ∈ letters) (s : List Char) :
    units? ('\\' :: e :: s) = (units? s).map fun (ns, r) => (x.toNat :: ns, r) := by
  have htable : ∀ p ∈ letters, p.1 ≠ 'u' ∧ escape? p.1 = some p.2.toNat := by decide
  obtain ⟨hu, hescape⟩ := htable _ h
  rw [units?, hescape]
  exact fun _ _ _ _ _ he _ => hu he

/-- However it is written, a character is read as its units. -/
theorem Spells.units {x : Char} {w : List Char} (h : Spells x w) :
    ∃ ns, AreUnits ns x ∧
      ∀ s, units? (w ++ s) = (units? s).map fun (ms, r) => (ns ++ ms, r) := by
  cases h with
  | itself hcontrol hquote hbackslash =>
      refine ⟨[x.toNat], areUnits_toNat x, fun s => ?_⟩
      rw [List.singleton_append, units?, if_neg (Nat.not_lt.2 hcontrol)]
      · rfl
      · exact hquote
      · exact fun _ _ _ _ _ h _ => hbackslash h
      · exact fun _ _ h _ => hbackslash h
  | letter hletter => exact ⟨[x.toNat], areUnits_toNat x, units?_letter_append hletter⟩
  | unit hnumber =>
      refine ⟨[x.toNat], areUnits_toNat x, fun s => ?_⟩
      rw [units?_unitEscape_append, hnumber]
      rfl
  | @halves a b c d a' b' c' d' hhigh hlow hnumber =>
      refine ⟨[hexNumber [a, b, c, d], hexNumber [a', b', c', d']], fun ms => ?_, fun s => ?_⟩
      · rw [List.cons_append, List.singleton_append, chars?, hhigh, hlow, hnumber,
          Char.ofNat_toNat]
        rfl
      · rw [List.append_assoc, units?_unitEscape_append, units?_unitEscape_append, Option.map_map]
        rfl

/-- However its characters are written, a text is read up to its quote. -/
theorem units?_flatten_append (h : List.Forall₂ Spells s ws) (r : List Char) :
    ∃ ns, units? (ws.flatten ++ '"' :: r) = some (ns, r) ∧ chars? ns = some s := by
  induction h with
  | nil => exact ⟨[], rfl, rfl⟩
  | cons hx _ ih =>
      obtain ⟨ns, hns, hread⟩ := hx.units
      obtain ⟨ms, hms, hchars⟩ := ih
      refine ⟨ns ++ ms, ?_, ?_⟩
      · rw [List.flatten_cons, List.append_assoc, hread, hms]
        rfl
      · rw [hns, hchars]
        rfl

theorem spells_encodeChar (c : Char) : Spells c (encodeChar c) := by
  unfold encodeChar
  split
  case h_1 => exact .letter (by decide)
  case h_2 => exact .letter (by decide)
  case h_3 => exact .letter (by decide)
  case h_4 => exact .letter (by decide)
  case h_5 => exact .letter (by decide)
  case h_6 hquote hbackslash _ _ _ =>
      split
      next hc =>
          obtain rfl : c = '\x08' := Char.toNat_inj.1 hc
          exact .letter (by decide)
      next =>
          split
          next hc =>
              obtain rfl : c = '\x0c' := Char.toNat_inj.1 hc
              exact .letter (by decide)
          next =>
              split
              next hcontrol =>
                  have hzero : 0 < 16 := by decide
                  have hhigh : c.toNat / 16 < 16 := by omega
                  have hlow : c.toNat % 16 < 16 := by omega
                  have hnumber :
                      hexNumber [.ofLt hzero, .ofLt hzero, .ofLt hhigh, .ofLt hlow] = c.toNat := by
                    show (((0 * 16 + 0) * 16 + 0) * 16 + c.toNat / 16) * 16 + c.toNat % 16 = c.toNat
                    omega
                  exact .unit hnumber
              next hcontrol => exact .itself (Nat.not_lt.1 hcontrol) hquote hbackslash

/-- What is written for a text is one of its spellings. -/
theorem spells_encode (s : List Char) : List.Forall₂ Spells s (s.map encodeChar) :=
  List.forall₂_map_right_iff.2 (List.forall₂_same.2 fun c _ => spells_encodeChar c)

end IrSurvey.Json.Quoted
