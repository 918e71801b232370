import IrSurvey.Proofs.Text.Blank
import IrSurvey.Proofs.Text.Named
import IrSurvey.Text.Symbol

/-!
Symbol names in front of a parenthesis.
-/
namespace IrSurvey.Text

/-- The spelling of a symbol name. -/
def IsSymbol (name : List Char) : Prop :=
  name ≠ [] ∧ ∀ c ∈ name, isSymbolChar c = true

variable {s t name rest : List Char}

theorem newline_not_mem_of_isSymbolChar (h : ∀ c ∈ name, isSymbolChar c = true) : '\n' ∉ name :=
  fun hmem => absurd (h _ hmem) (by decide)

theorem IsSymbol.newline_not_mem (h : IsSymbol name) : '\n' ∉ name :=
  newline_not_mem_of_isSymbolChar h.2

/-- A blank is no part of a name. -/
theorem isSymbolChar_of_isBlank {c : Char} (hc : isBlank c = true) : isSymbolChar c = false :=
  eq_false_of_isBlank (by decide +kernel) hc

theorem applied?_eq_named? (s : List Char) : applied? s = named? isSymbolChar isBlank '(' s := by
  unfold applied? named? trimStart
  split
  next rest hrest =>
      rw [hrest]
      by_cases hne : s.takeWhile isSymbolChar = [] <;> simp [hne]
  next hother =>
      split
      next c r hr => exact (if_neg fun h => hother r (by rw [hr, h.1])).symm
      next => rfl

theorem delimits_parenthesis : Delimits isSymbolChar isBlank '(' where
  isName_of_isGap := isSymbolChar_of_isBlank
  isName_sign := by decide
  isGap_sign := by decide

theorem applied?_sound (h : applied? s = some (name, rest)) :
    ∃ g, AllBlank g ∧ IsSymbol name ∧ s = name ++ g ++ '(' :: rest := by
  rw [applied?_eq_named?, named?_eq_some_iff delimits_parenthesis] at h
  obtain ⟨hname, g, hg, rfl⟩ := h
  exact ⟨g, hg, hname, (List.append_assoc _ _ _).symm⟩

theorem applied?_of_gap {g : List Char} (hname : IsSymbol name) (hg : AllBlank g) :
    applied? (name ++ g ++ '(' :: rest) = some (name, rest) := by
  rw [applied?_eq_named?, named?_eq_some_iff delimits_parenthesis]
  exact ⟨hname, g, hg, List.append_assoc _ _ _⟩

/-- What goes on with no name and no parenthesis has no part in an application. -/
theorem applied?_append (hname : ∀ c ∈ t.head?, isSymbolChar c = false)
    (hopen : (trimStart t).head? ≠ some '(') :
    applied? (s ++ t) = (applied? s).map fun q => (q.1, q.2 ++ t) := by
  rw [applied?_eq_named?, applied?_eq_named?]
  exact named?_append hname hopen

end IrSurvey.Text
