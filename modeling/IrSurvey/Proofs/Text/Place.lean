import Mathlib.Data.List.Basic

/-!
The places of a text where one of several words starts. Where no word can start inside another, the
places behind a word that stands at the front are those of the rest.
-/
namespace IrSurvey.Text

variable {ws : List (List Char)} {v w s r : List Char} {c : Char} {i : Nat}

/-- One of the words stands at the front of the text. -/
def StartsWith (ws : List (List Char)) (s : List Char) : Prop :=
  ∃ w ∈ ws, w <+: s

instance (ws : List (List Char)) (s : List Char) : Decidable (StartsWith ws s) :=
  inferInstanceAs (Decidable (∃ w ∈ ws, w <+: s))

/-- The places where one of the words starts, in ascending order. -/
def places (ws : List (List Char)) (s : List Char) : List Nat :=
  (List.range s.length).filter fun i => StartsWith ws (s.drop i)

@[simp] theorem startsWith_singleton : StartsWith [w] s ↔ w <+: s := by
  simp [StartsWith]

/-- The places behind a text that others follow are those of what follows. -/
theorem places_append (s t : List Char) :
    places ws (s ++ t) =
      (List.range s.length).filter (fun i => StartsWith ws ((s ++ t).drop i)) ++
        (places ws t).map (s.length + ·) := by
  have hbehind : ∀ i, (s ++ t).drop (s.length + i) = t.drop i := fun i => by
    rw [List.drop_append]
    simp
  rw [places, List.length_append, List.range_add, List.filter_append, List.filter_map]
  simp only [Function.comp_def, hbehind]
  rfl

theorem places_cons (c : Char) (s : List Char) :
    places ws (c :: s) =
      (if StartsWith ws (c :: s) then [0] else []) ++ (places ws s).map (1 + ·) := by
  refine (places_append [c] s).trans (congrArg (· ++ _) ?_)
  by_cases hc : StartsWith ws (c :: s) <;> simp [hc]

theorem head?_places (h : StartsWith ws (c :: s)) : (places ws (c :: s)).head? = some 0 := by
  rw [places_cons, if_pos h]
  rfl

theorem countP_places_append (ws : List (List Char)) (s t : List Char) :
    (places ws (s ++ t)).countP (s.length ≤ ·) = (places ws t).length := by
  have hfront : ((List.range s.length).filter
      (fun i => StartsWith ws ((s ++ t).drop i))).countP (s.length ≤ ·) = 0 := by
    refine List.countP_eq_zero.2 fun i hi => ?_
    have hlt : i < s.length := List.mem_range.1 (List.mem_of_mem_filter hi)
    simpa using hlt
  have hbehind : (places ws t).countP (fun i => s.length ≤ s.length + i) = (places ws t).length :=
    List.countP_eq_length.2 fun i _ => decide_eq_true (Nat.le_add_right _ _)
  rw [places_append, List.countP_append, hfront, List.countP_map, Nat.zero_add]
  exact hbehind

/-- A word that is not in a text is in no rest of it. -/
theorem places_of_append_eq_nil (h : places ws (s ++ t) = []) : places ws t = [] := by
  rw [places_append, List.append_eq_nil_iff, List.map_eq_nil_iff] at h
  exact h.2

/-! ## Words apart -/

/-- The word `v` does not start in `w`, wholly or in part, unless it is `w` itself. -/
def Apart (w v : List Char) : Prop :=
  ∀ i < w.length, v <+: w.drop i ∨ w.drop i <+: v → i = 0 ∧ v = w

instance (w v : List Char) : Decidable (Apart w v) :=
  inferInstanceAs (Decidable (∀ i < w.length, _))

theorem Apart.of_prefix_drop (h : Apart w v) (hi : i < w.length) (hv : v <+: (w ++ r).drop i) :
    i = 0 ∧ v = w := by
  rw [List.drop_append_of_le_length (Nat.le_of_lt hi)] at hv
  exact h i hi (List.prefix_or_prefix_of_prefix hv (List.prefix_append _ _))

/-- Behind a word at the front all places are those of the rest. -/
theorem places_word_append (hw : w ∈ ws) (hne : w ≠ []) (hapart : ∀ v ∈ ws, Apart w v)
    (r : List Char) : places ws (w ++ r) = 0 :: (places ws r).map (w.length + ·) := by
  obtain ⟨c, u, rfl⟩ := List.exists_cons_of_ne_nil hne
  have hfront : StartsWith ws ((c :: u ++ r).drop 0) := ⟨c :: u, hw, List.prefix_append _ r⟩
  have hinside :
      (List.range u.length).filter (fun i => StartsWith ws ((c :: u ++ r).drop (i + 1))) = [] := by
    refine List.filter_eq_nil_iff.2 fun i hi hstarts => ?_
    obtain ⟨v, hv, hprefix⟩ := of_decide_eq_true hstarts
    have hlt : i + 1 < (c :: u).length := Nat.succ_lt_succ (List.mem_range.1 hi)
    exact absurd ((hapart v hv).of_prefix_drop hlt hprefix).1 (Nat.succ_ne_zero i)
  rw [places_append, List.length_cons, List.range_succ_eq_map, List.filter_cons,
    if_pos (decide_eq_true hfront), List.filter_map]
  exact congrArg (fun l => (0 :: l.map Nat.succ) ++ _) hinside

/-- Words that are apart from the one at the front start behind it. -/
theorem places_other_append (hapart : ∀ v ∈ ws, Apart w v ∧ v ≠ w) (r : List Char) :
    places ws (w ++ r) = (places ws r).map (w.length + ·) := by
  have hnone : (List.range w.length).filter (fun i => StartsWith ws ((w ++ r).drop i)) = [] := by
    refine List.filter_eq_nil_iff.2 fun i hi hstarts => ?_
    obtain ⟨v, hv, hprefix⟩ := of_decide_eq_true hstarts
    have heq := (hapart v hv).1.of_prefix_drop (List.mem_range.1 hi) hprefix
    exact (hapart v hv).2 heq.2
  rw [places_append, hnone, List.nil_append]

end IrSurvey.Text
