import Mathlib.Data.List.Basic

/-!
Texts joined by a separator. Each but the first has the separator in front, and everything else
about joining follows from that.
-/
namespace IrSurvey.Text
open scoped List

variable {α : Type} {a : α} {sep p : List α} {ps : List (List α)}

theorem intercalate_cons_eq (sep p : List α) (ps : List (List α)) :
    sep.intercalate (p :: ps) = p ++ ps.flatMap (sep ++ ·) := by
  induction ps generalizing p with
  | nil => simp
  | cons q ps ih => rw [List.intercalate_cons_cons, ih, List.flatMap_cons, List.append_assoc,
      List.append_assoc]

theorem intercalate_cons (hne : ps ≠ []) (p : List α) :
    [a].intercalate (p :: ps) = p ++ a :: [a].intercalate ps := by
  obtain ⟨q, qs, rfl⟩ := List.exists_cons_of_ne_nil hne
  rw [List.intercalate_cons_cons, List.append_assoc, List.singleton_append]

theorem intercalate_concat (hne : ps ≠ []) (p : List α) :
    [a].intercalate (ps ++ [p]) = [a].intercalate ps ++ a :: p := by
  obtain ⟨q, qs, rfl⟩ := List.exists_cons_of_ne_nil hne
  rw [List.cons_append, intercalate_cons_eq, intercalate_cons_eq, List.flatMap_append,
    List.flatMap_singleton, List.append_assoc, List.singleton_append]

theorem intercalate_modifyHead (hne : ps ≠ []) (b : α) :
    [a].intercalate (ps.modifyHead (b :: ·)) = b :: [a].intercalate ps := by
  obtain ⟨q, qs, rfl⟩ := List.exists_cons_of_ne_nil hne
  rw [List.modifyHead_cons, intercalate_cons_eq, intercalate_cons_eq, List.cons_append]

/-- The second character of a separator may go to what stands behind it. -/
theorem intercalate_pair (a b : α) (p : List α) (ps : List (List α)) :
    [a, b].intercalate (p :: ps) = [a].intercalate (p :: ps.map (b :: ·)) := by
  rw [intercalate_cons_eq, intercalate_cons_eq, List.flatMap_map]
  rfl

theorem mem_intercalate (h : a ∈ sep.intercalate ps) : a ∈ sep ∨ ∃ p ∈ ps, a ∈ p := by
  cases ps with
  | nil => simp at h
  | cons p ps =>
      rw [intercalate_cons_eq, List.mem_append, List.mem_flatMap] at h
      rcases h with h | ⟨q, hq, h⟩
      · exact .inr ⟨p, List.mem_cons_self, h⟩
      · exact (List.mem_append.1 h).imp_right fun h => ⟨q, List.mem_cons_of_mem p hq, h⟩

theorem sublist_intercalate (h : p ∈ ps) : p <+ sep.intercalate ps := by
  cases ps with
  | nil => cases h
  | cons q ps =>
      rw [intercalate_cons_eq]
      rcases List.mem_cons.1 h with rfl | h
      · exact List.sublist_append_left _ _
      · have hmem : sep ++ p ∈ ps.map (sep ++ ·) := List.mem_map_of_mem h
        have hflat : sep ++ p <+ ps.flatMap (sep ++ ·) := List.sublist_flatten_of_mem hmem
        exact (List.sublist_append_right sep p).trans
          (hflat.trans (List.sublist_append_right _ _))

end IrSurvey.Text
