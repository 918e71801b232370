import IrSurvey.Proofs.Json.Numeral
import IrSurvey.Proofs.Json.Quoted

/-!
Tokens and how they may be written. A token is found again in front of any text, unless it is a
number and the text goes on with it.
-/
namespace IrSurvey.Json.Token

variable {t : Token} {r w : List Char}

/-- A token that is always written alike. -/
def isFixed : Token → Bool
  | .number _ => false
  | .string _ => false
  | _ => true

/-- How a token may be written. -/
inductive Written : Token → List Char → Prop
  | fixed {t : Token} : t.isFixed = true → Written t t.spell
  | number (n : Numeral) : Written (.number n.literal) n.chars
  | string {s : List Char} {ws : List (List Char)} : List.Forall₂ Quoted.Spells s ws →
      Written (.string (some (String.ofList s))) ('"' :: (ws.flatten ++ ['"']))

/-- A text is written as one of its spellings. -/
theorem written_string (s : String) : Written (.string (some s)) (spell (.string (some s))) := by
  have hwritten := Written.string (Quoted.spells_encode s.toList)
  rw [String.ofList_toList, ← List.flatMap_def] at hwritten
  exact hwritten

theorem written_number (n : Numeral) :
    Written (.number n.literal) (spell (.number n.literal)) := by
  have hwritten := Written.number n
  rwa [← String.toList_ofList (l := n.chars)] at hwritten

/-- A number is not followed by a character that it could go on with. -/
def EndsBefore (t : Token) (r : List Char) : Prop :=
  (∃ literal, t = .number literal) → EndsNumber r

theorem Written.next? (h : Written t w) (hr : t.EndsBefore r) : next? (w ++ r) = some (t, r) := by
  cases h with
  | fixed hfixed =>
      cases t with
      | bool b => cases b <;> rfl
      | number => cases hfixed
      | string => cases hfixed
      | _ => rfl
  | number n => exact n.next?_append (hr ⟨_, rfl⟩)
  | @string s ws hs =>
      obtain ⟨ns, hns, hchars⟩ := Quoted.units?_flatten_append hs r
      rw [List.cons_append, List.append_assoc, List.singleton_append, Token.next?, hns]
      simp only [Option.map_some, hchars]

/-- A token starts with no blank. -/
theorem Written.head? (h : Written t w) : ∃ c s, w = c :: s ∧ isSpace c = false := by
  cases h with
  | fixed hfixed =>
      cases t with
      | bool b => cases b <;> exact ⟨_, _, rfl, rfl⟩
      | number => cases hfixed
      | string => cases hfixed
      | _ => exact ⟨_, _, rfl, rfl⟩
  | number n =>
      obtain ⟨d, ds, hds, hd⟩ := n.exists_digit_whole
      have hspace : isSpace d = false := by
        rw [Bool.eq_false_iff]
        intro h
        simp only [isSpace, Bool.or_eq_true, decide_eq_true_eq] at h
        rcases h with ((rfl | rfl) | rfl) | rfl <;> exact absurd hd (by decide)
      rw [Numeral.chars, hds]
      rcases n.sign_cases with h | h
      · rw [h]
        exact ⟨d, _, rfl, hspace⟩
      · rw [h]
        exact ⟨'-', _, rfl, rfl⟩
  | string => exact ⟨'"', _, rfl, rfl⟩

/-! ## All tokens of a text -/

theorem all?_of_next? {s : List Char} (hs : s.dropWhile isSpace = s)
    (h : next? s = some (t, r)) : all? s = (all? r).map (t :: ·) := by
  rw [all?]
  split
  next hnil =>
      rw [hs] at hnil
      rw [hnil] at h
      cases h
  next c s' hcons =>
      rw [← hcons, hs]
      split
      next t' r' h' =>
          rw [h] at h'
          cases h'
          rfl
      next h' =>
          rw [h] at h'
          cases h'

theorem all?_nil : all? [] = some [] := by
  rw [all?]
  rfl

theorem all?_congr {s s' : List Char} (h : s.dropWhile isSpace = s'.dropWhile isSpace) :
    all? s = all? s' := by
  unfold all?
  rw [h]

end IrSurvey.Json.Token
