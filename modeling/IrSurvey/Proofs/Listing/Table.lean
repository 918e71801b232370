import Mathlib.Data.List.Induction
import IrSurvey.Listing.Assembly

/-!
The functions of a listing as a table. A name has one entry, at the place of its first definition
and with the content of its last.
-/
namespace IrSurvey.Listing

variable {fs : List Function} {f : Function} {n : String}

theorem isReserved_iff :
    isReserved n = true ↔ "__".toList <+: n.toList ∨ "llvm.".toList <+: n.toList := by
  simp [isReserved]

/-- An insertion changes the names only if it brings a new one, which comes last. -/
theorem map_name_insertFunction (fs : List Function) (f : Function) :
    (insertFunction fs f).map (·.name) =
      if f.name ∈ fs.map (·.name) then fs.map (·.name) else fs.map (·.name) ++ [f.name] := by
  induction fs with
  | nil => rfl
  | cons g fs ih =>
      by_cases h : g.name = f.name
      · simp [insertFunction, h]
      · simp only [insertFunction, if_neg h, List.map_cons, ih, List.mem_cons, Ne.symm h, false_or]
        split <;> rfl

theorem nodup_insertFunction (h : (fs.map (·.name)).Nodup) :
    ((insertFunction fs f).map (·.name)).Nodup := by
  rw [map_name_insertFunction]
  split
  next => exact h
  next hf =>
      refine List.nodup_append.2 ⟨h, List.pairwise_singleton _ _, ?_⟩
      intro a ha b hb
      rintro rfl
      exact hf (List.mem_singleton.1 hb ▸ ha)

/-- An insertion is found under its name, and changes nothing under another. -/
theorem find?_insertFunction (fs : List Function) (f : Function) (n : String) :
    (insertFunction fs f).find? (·.name = n) =
      if f.name = n then some f else fs.find? (·.name = n) := by
  induction fs with
  | nil => by_cases hn : f.name = n <;> simp [insertFunction, hn]
  | cons g fs ih =>
      by_cases h : g.name = f.name
      · by_cases hn : f.name = n
        · simp [insertFunction, h, hn]
        · simp [insertFunction, h, hn]
      · by_cases hg : g.name = n
        · have hn : f.name ≠ n := fun he => h (hg.trans he.symm)
          simp [insertFunction, hg, hn, hn.symm]
        · simp [insertFunction, h, hg, ih]

/-! ## Many insertions -/

theorem nodup_foldl_insertFunction (fs : List Function) :
    ((fs.foldl insertFunction []).map (·.name)).Nodup := by
  induction fs using List.reverseRecOn with
  | nil => exact .nil
  | append_singleton fs f ih =>
      rw [List.foldl_append]
      exact nodup_insertFunction ih

theorem eraseDups_concat {α : Type} [DecidableEq α] (l : List α) (a : α) :
    (l ++ [a]).eraseDups = if a ∈ l then l.eraseDups else l.eraseDups ++ [a] := by
  rw [List.eraseDups_append]
  by_cases h : a ∈ l
  · simp [List.removeAll, h]
  · simp [List.removeAll, h, List.eraseDups_cons]

theorem map_name_foldl_insertFunction (fs : List Function) :
    (fs.foldl insertFunction []).map (·.name) = (fs.map (·.name)).eraseDups := by
  induction fs using List.reverseRecOn with
  | nil => rfl
  | append_singleton fs f ih =>
      rw [List.foldl_append, List.foldl_cons, List.foldl_nil, map_name_insertFunction, ih,
        List.map_append, List.map_singleton, eraseDups_concat]
      simp only [List.mem_eraseDups]

/-- What is found under a name was inserted last under it. -/
theorem find?_foldl_insertFunction (fs : List Function) (n : String) :
    (fs.foldl insertFunction []).find? (·.name = n) = (fs.filter (·.name = n)).getLast? := by
  induction fs using List.reverseRecOn with
  | nil => rfl
  | append_singleton fs f ih =>
      rw [List.foldl_append, List.foldl_cons, List.foldl_nil, find?_insertFunction, ih,
        List.filter_append, List.getLast?_append]
      by_cases h : f.name = n
      · simp [h]
      · simp [h]

theorem mem_of_mem_insertFunction {g : Function} (h : g ∈ insertFunction fs f) :
    g ∈ fs ∨ g = f := by
  induction fs with
  | nil => exact .inr (List.mem_singleton.1 h)
  | cons k fs ih =>
      rw [insertFunction] at h
      split at h
      next =>
          rcases List.mem_cons.1 h with rfl | h
          · exact .inr rfl
          · exact .inl (List.mem_cons_of_mem k h)
      next =>
          rcases List.mem_cons.1 h with rfl | h
          · exact .inl List.mem_cons_self
          · exact (ih h).imp_left (List.mem_cons_of_mem k)

theorem mem_of_mem_foldl_insertFunction {gs : List Function}
    (h : f ∈ gs.foldl insertFunction []) : f ∈ gs := by
  induction gs using List.reverseRecOn with
  | nil => exact h
  | append_singleton gs g ih =>
      rw [List.foldl_append] at h
      rcases mem_of_mem_insertFunction h with h | rfl
      · exact List.mem_append_left _ (ih h)
      · exact List.mem_concat_self

/-- The definitions of a text that the toolchain has not reserved. -/
def programDefinitions (s : List Char) : List Definition :=
  (Definition.all s).filter fun d =>
    ¬ ("__".toList <+: d.name.toList ∨ "llvm.".toList <+: d.name.toList)

theorem functionsOf_all (s : List Char) :
    functionsOf (Definition.all s) =
      ((programDefinitions s).map Function.ofDefinition).foldl insertFunction [] := by
  have h : ∀ d : Definition, (!isReserved d.name) =
      decide ¬ ("__".toList <+: d.name.toList ∨ "llvm.".toList <+: d.name.toList) := by
    intro d
    simp only [← isReserved_iff, Bool.not_eq_true, Bool.decide_eq_false]
  simp only [functionsOf, programDefinitions, h]

/-- Every function of a text is made of one of its definitions. -/
theorem exists_definition_of_mem_functions {text : String} (h : f ∈ (ofText text).functions) :
    ∃ d ∈ programDefinitions text.toList, f = Function.ofDefinition d := by
  rw [ofText, functionsOf_all] at h
  obtain ⟨d, hd, rfl⟩ := List.mem_map.1 (mem_of_mem_foldl_insertFunction h)
  exact ⟨d, hd, rfl⟩

/-- The functions of a text are named by its definitions, each name once and in the order of first
definitions, and each is made of the last definition of its name. -/
theorem ofText_functions (text : String) :
    ((ofText text).functions.map (·.name)).Nodup ∧
      (ofText text).functions.map (·.name) =
        ((programDefinitions text.toList).map (·.name)).eraseDups ∧
      ∀ name, (ofText text).function? name =
        ((programDefinitions text.toList).filter (·.name = name)).getLast?.map
          Function.ofDefinition := by
  have hnames : ((programDefinitions text.toList).map Function.ofDefinition).map (·.name) =
      (programDefinitions text.toList).map (·.name) := by
    rw [List.map_map]
    rfl
  refine ⟨?_, ?_, fun name => ?_⟩
  · rw [ofText, functionsOf_all]
    exact nodup_foldl_insertFunction _
  · rw [ofText, functionsOf_all, map_name_foldl_insertFunction, hnames]
  · rw [function?, ofText, functionsOf_all, find?_foldl_insertFunction, List.filter_map,
      List.getLast?_map]
    rfl

end IrSurvey.Listing
