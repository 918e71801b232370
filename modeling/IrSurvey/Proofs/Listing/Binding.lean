import IrSurvey.Listing.Declaration
import IrSurvey.Proofs.Text.Symbol

/-!
The symbol that a line binds. Declarations and string literals look for it with different gaps; for
both it stands between a sigil and an equals sign, and a newline ends the search.
-/
namespace IrSurvey.Listing.Declaration
open Text

variable {gap : Char → Bool} {s t name r : List Char}

/-- The text starts with a sigil, a symbol and an equals sign, with gaps in front of the sigil and
of the equals sign, and goes on with `r`. -/
def Binds (gap : Char → Bool) (s name r : List Char) : Prop :=
  IsSymbol name ∧ ∃ a g, (∀ c ∈ a, gap c = true) ∧ (∀ c ∈ g, gap c = true) ∧
    s = a ++ '@' :: (name ++ (g ++ '=' :: r))

theorem isBlank_of_isGap {c : Char} (hc : isGap c = true) : isBlank c = true := by
  simp only [isGap, Bool.or_eq_true, decide_eq_true_eq] at hc
  rcases hc with rfl | rfl <;> decide

theorem delimits_gap : Delimits isSymbolChar isGap '=' where
  isName_of_isGap := fun hc => isSymbolChar_of_isBlank (isBlank_of_isGap hc)
  isName_sign := by decide
  isGap_sign := by decide

theorem delimits_blank : Delimits isSymbolChar isBlank '=' where
  isName_of_isGap := isSymbolChar_of_isBlank
  isName_sign := by decide
  isGap_sign := by decide

/-- Behind a sigil the binding is a name in front of an equals sign. -/
theorem binding?_of_sigil (h : s.dropWhile gap = '@' :: t) :
    binding? gap s = named? isSymbolChar gap '=' t := by
  simp only [binding?, h, named?]
  split
  next r hr =>
      rw [hr]
      by_cases hne : t.takeWhile isSymbolChar = [] <;> simp [hne]
  next hother =>
      split
      next c r hr => exact (if_neg fun hsign => hother r (by rw [hr, hsign.1])).symm
      next => rfl

theorem binding?_eq_none (h : (s.dropWhile gap).head? ≠ some '@') : binding? gap s = none := by
  unfold binding?
  split
  next t ht => exact absurd (by rw [ht]; rfl) h
  next => rfl

theorem binding?_eq_some_iff (hgap : Delimits isSymbolChar gap '=') (hsigil : gap '@' = false) :
    binding? gap s = some (name, r) ↔ Binds gap s name r := by
  constructor
  · intro h
    by_cases hhead : (s.dropWhile gap).head? = some '@'
    · obtain ⟨t, ht⟩ := List.head?_eq_some_iff.1 hhead
      rw [binding?_of_sigil ht, named?_eq_some_iff hgap] at h
      obtain ⟨hname, g, hg, rfl⟩ := h
      exact ⟨hname, s.takeWhile gap, g, fun _ hc => List.mem_takeWhile_imp hc, hg,
        eq_takeWhile_append_cons ht⟩
    · rw [binding?_eq_none hhead] at h
      cases h
  · rintro ⟨hname, a, g, ha, hg, rfl⟩
    rw [binding?_of_sigil (dropWhile_append_cons ha hsigil), named?_eq_some_iff hgap]
    exact ⟨hname, g, hg, rfl⟩

/-- A gap that no newline is part of keeps the binding on the line where it starts. -/
theorem binding?_append_newline (hgap : gap '\n' = false) (s t : List Char) :
    binding? gap (s ++ '\n' :: t) = (binding? gap s).map fun b => (b.1, b.2 ++ '\n' :: t) := by
  have hstop : ∀ c ∈ ('\n' :: t).head?, gap c = false := forall_head?_cons hgap
  have hother : ∀ {c}, '\n' ≠ c → ('\n' :: t).head? ≠ some c := fun hc he => hc (Option.some.inj he)
  have hdrop : (s ++ '\n' :: t).dropWhile gap = s.dropWhile gap ++ '\n' :: t :=
    dropWhile_append_of_head? hstop
  cases hs : s.dropWhile gap with
  | nil =>
      rw [hs, List.nil_append] at hdrop
      rw [binding?_eq_none (by rw [hdrop]; exact hother (by decide)),
        binding?_eq_none (by rw [hs]; exact nofun)]
      rfl
  | cons c u =>
      rw [hs, List.cons_append] at hdrop
      by_cases hc : c = '@'
      · subst hc
        have hname : ∀ c ∈ ('\n' :: t).head?, isSymbolChar c = false :=
          forall_head?_cons (by decide)
        have hsign : (('\n' :: t).dropWhile gap).head? ≠ some '=' := by
          rw [dropWhile_eq_self hstop]
          exact hother (by decide)
        rw [binding?_of_sigil hdrop, binding?_of_sigil hs]
        exact named?_append hname hsign
      · have hne : some c ≠ some '@' := fun he => hc (Option.some.inj he)
        rw [binding?_eq_none (by rw [hdrop]; exact hne), binding?_eq_none (by rw [hs]; exact hne)]
        rfl

end IrSurvey.Listing.Declaration
