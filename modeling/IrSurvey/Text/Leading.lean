/-!
What stands at the front of a text: a fixed word, or the longest stretch of a class. The lemmas say
that reading it never lengthens the rest.
-/
namespace IrSurvey.Text

variable {α : Type}

theorem length_dropWhile_le (p : α → Bool) (s : List α) : (s.dropWhile p).length ≤ s.length :=
  (List.dropWhile_sublist p).length_le

theorem isPrefixOf?_eq_some_iff [DecidableEq α] {l s r : List α} :
    l.isPrefixOf? s = some r ↔ s = l ++ r := by
  induction l generalizing s with
  | nil => exact ⟨fun h => Option.some.inj h, fun h => congrArg some h⟩
  | cons a l ih =>
      cases s with
      | nil => exact ⟨nofun, nofun⟩
      | cons b s =>
          have hstep : (a :: l).isPrefixOf? (b :: s) =
              if a == b then l.isPrefixOf? s else none := rfl
          rw [hstep]
          by_cases h : a = b
          · simp [h, ih]
          · simp [h, Ne.symm h]

theorem length_isPrefixOf?_le [DecidableEq α] {l s r : List α} (h : l.isPrefixOf? s = some r) :
    r.length ≤ s.length := by
  simp [isPrefixOf?_eq_some_iff.1 h]

end IrSurvey.Text
