import Mathlib
import IrSurvey.Marker.Signature
import IrSurvey.Proofs.Text.Place

/-!
What folding identifies. A folded text has a word of small letters where the text has the word up to
case and two look-alikes.
-/
namespace IrSurvey.Text

/-- The character stands for `d` where case does not count: it is `d` itself, its capital, or one of
the two characters outside ASCII that fold to a small letter. -/
def IsVariant (c d : Char) : Prop :=
  c = d ∨ c = d.toUpper ∨ (c = 'ſ' ∧ d = 's') ∨ (c = '\u212A' ∧ d = 'k')

instance (c d : Char) : Decidable (IsVariant c d) :=
  inferInstanceAs (Decidable (_ ∨ _))

/-- The places where one of the words starts up to case, in ascending order. -/
def caselessPlaces (ws : List (List Char)) (s : List Char) : List Nat :=
  (List.range s.length).filter fun i =>
    ∃ w ∈ ws, List.Forall₂ IsVariant ((s.drop i).take w.length) w

/-- Folding leaves the word as it is. -/
def Folded (w : List Char) : Prop :=
  ∀ d ∈ w, fold d = d

instance (w : List Char) : Decidable (Folded w) :=
  List.decidableBAll (fun d => fold d = d) w

variable {ws : List (List Char)} {w s : List Char} {c d : Char}

theorem fold_of_ne (hs : c ≠ 'ſ') (hk : c ≠ '\u212A') : fold c = c.toLower := by
  rw [fold, if_neg hs, if_neg hk]

theorem fold_toUpper (hd : fold d = d) : fold d.toUpper = d := by
  by_cases hlower : d.isLower = true
  · have hupper : d.toUpper.isUpper = true := by
      rw [Char.isUpper_toUpper_eq_isAlpha, Char.isAlpha, hlower, Bool.or_true]
    have hs : d.toUpper ≠ 'ſ' := fun he => absurd hupper (by rw [he]; decide)
    have hk : d.toUpper ≠ '\u212A' := fun he => absurd hupper (by rw [he]; decide)
    have hs' : d ≠ 'ſ' := fun he => absurd hlower (by rw [he]; decide)
    have hk' : d ≠ '\u212A' := fun he => absurd hlower (by rw [he]; decide)
    rw [fold_of_ne hs hk, Char.toLower_toUpper_eq_toLower, ← fold_of_ne hs' hk', hd]
  · rw [Char.toUpper_eq_of_not_isLower hlower, hd]

theorem fold_eq_iff (hd : fold d = d) : fold c = d ↔ IsVariant c d := by
  constructor
  · intro h
    by_cases hs : c = 'ſ'
    · subst hs
      exact .inr (.inr (.inl ⟨rfl, h.symm⟩))
    by_cases hk : c = '\u212A'
    · subst hk
      exact .inr (.inr (.inr ⟨rfl, h.symm⟩))
    rw [fold_of_ne hs hk] at h
    by_cases hupper : c.isUpper = true
    · have hlower := Char.not_isLower_of_isUpper hupper
      refine .inr (.inl ?_)
      rw [← h, Char.toUpper_toLower_eq_toUpper, Char.toUpper_eq_of_not_isLower hlower]
    · rw [Char.toLower_eq_of_not_isUpper hupper] at h
      exact .inl h
  · rintro (rfl | rfl | ⟨rfl, rfl⟩ | ⟨rfl, rfl⟩)
    · exact hd
    · exact fold_toUpper hd
    · decide
    · decide

theorem newline_not_mem_map_fold (h : '\n' ∉ s) : '\n' ∉ s.map fold := by
  intro hmem
  obtain ⟨c, hc, he⟩ := List.mem_map.1 hmem
  rcases (fold_eq_iff (by decide)).1 he with rfl | rfl | ⟨-, h'⟩ | ⟨-, h'⟩
  · exact h hc
  · exact h hc
  · exact absurd h' (by decide)
  · exact absurd h' (by decide)

theorem forall₂_isVariant_iff (hw : Folded w) {u : List Char} :
    List.Forall₂ IsVariant u w ↔ u.map fold = w := by
  constructor
  · intro h
    induction h with
    | nil => rfl
    | cons hc hu ih =>
        obtain ⟨hd, hw⟩ := List.forall_mem_cons.1 hw
        rw [List.map_cons, (fold_eq_iff hd).2 hc, ih hw]
  · rintro rfl
    rw [List.forall₂_map_right_iff, List.forall₂_same]
    exact fun c hc => (fold_eq_iff (hw _ (List.mem_map_of_mem hc))).1 rfl

/-- The places of words up to case are those of the words in the folded text. -/
theorem caselessPlaces_eq (hws : ∀ w ∈ ws, Folded w) (s : List Char) :
    caselessPlaces ws s = places ws (s.map fold) := by
  rw [caselessPlaces, places, List.length_map]
  refine List.filter_congr fun i _ => decide_eq_decide.2 ?_
  refine exists_congr fun w => and_congr_right fun hw => ?_
  rw [forall₂_isVariant_iff (hws w hw), List.map_take, List.map_drop, List.prefix_iff_eq_take,
    eq_comm]

end IrSurvey.Text
