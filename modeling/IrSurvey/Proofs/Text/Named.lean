import IrSurvey.Proofs.Text.Leading

/-!
Names in front of a sign. A name, a gap and a sign are read in exactly one way, and what follows a
text that cannot go on with any of the three has no part in the reading.
-/
namespace IrSurvey.Text

/-- A name at the front of a text that a gap and a sign follow, and the text after the sign. -/
def named? (isName isGap : Char → Bool) (sign : Char) (s : List Char) :
    Option (List Char × List Char) :=
  match (s.dropWhile isName).dropWhile isGap with
  | c :: r => if c = sign ∧ s.takeWhile isName ≠ [] then some (s.takeWhile isName, r) else none
  | [] => none

/-- A gap ends a name, and the sign ends both. -/
structure Delimits (isName isGap : Char → Bool) (sign : Char) : Prop where
  isName_of_isGap : ∀ {c}, isGap c = true → isName c = false
  isName_sign : isName sign = false
  isGap_sign : isGap sign = false

variable {isName isGap : Char → Bool} {sign : Char} {s t name r : List Char}

theorem named?_eq_some_iff (h : Delimits isName isGap sign) :
    named? isName isGap sign s = some (name, r) ↔
      (name ≠ [] ∧ ∀ c ∈ name, isName c = true) ∧
        ∃ g, (∀ c ∈ g, isGap c = true) ∧ s = name ++ (g ++ sign :: r) := by
  constructor
  · intro hread
    unfold named? at hread
    split at hread
    next c rest hrest =>
        split at hread
        next hc =>
            obtain ⟨rfl, hne⟩ := hc
            obtain ⟨rfl, rfl⟩ := Prod.mk.inj (Option.some.inj hread)
            refine ⟨⟨hne, fun _ ha => List.mem_takeWhile_imp ha⟩,
              (s.dropWhile isName).takeWhile isGap, fun _ ha => List.mem_takeWhile_imp ha, ?_⟩
            rw [← eq_takeWhile_append_cons hrest, List.takeWhile_append_dropWhile]
        next => cases hread
    next => cases hread
  · rintro ⟨⟨hne, hname⟩, g, hg, rfl⟩
    obtain ⟨c, u, hu, hc⟩ : ∃ c u, g ++ sign :: r = c :: u ∧ isName c = false := by
      cases g with
      | nil => exact ⟨sign, r, rfl, h.isName_sign⟩
      | cons c g => exact ⟨c, g ++ sign :: r, rfl, h.isName_of_isGap (hg c List.mem_cons_self)⟩
    have hrest : (c :: u).dropWhile isGap = sign :: r := by
      rw [← hu]
      exact dropWhile_append_cons hg h.isGap_sign
    rw [hu, named?, takeWhile_append_cons hname hc, dropWhile_append_cons hname hc, hrest]
    exact if_pos ⟨rfl, hne⟩

theorem named?_append (hname : ∀ c ∈ t.head?, isName c = false)
    (hsign : (t.dropWhile isGap).head? ≠ some sign) :
    named? isName isGap sign (s ++ t) =
      (named? isName isGap sign s).map fun q => (q.1, q.2 ++ t) := by
  rw [named?, named?, takeWhile_append_of_head? hname, dropWhile_append_of_head? hname]
  cases hrest : (s.dropWhile isName).dropWhile isGap with
  | nil =>
      -- the gap runs to the end of the text, and what follows starts with no sign
      have ht : (s.dropWhile isName ++ t).dropWhile isGap = t.dropWhile isGap :=
        List.dropWhile_append_of_pos (List.dropWhile_eq_nil_iff.1 hrest)
      rw [ht]
      cases hd : t.dropWhile isGap with
      | nil => rfl
      | cons c u => exact if_neg fun h => hsign (by rw [hd, List.head?_cons, h.1])
  | cons c u =>
      have ht := (span_append_of_ne_nil (by rw [hrest]; exact List.cons_ne_nil c u) t).2
      rw [ht, hrest]
      dsimp only [List.cons_append]
      split <;> rfl

end IrSurvey.Text
