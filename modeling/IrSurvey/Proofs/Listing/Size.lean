import Mathlib.Algebra.Order.BigOperators.Group.List
import Mathlib.Algebra.Order.Ring.Nat
import IrSurvey.Proofs.Listing.Body
import IrSurvey.Proofs.Listing.Definition
import IrSurvey.Proofs.Listing.Table

/-!
How large a listing is, against the text that it is drawn from. A text has at most as many functions
as characters, and so has each of them instructions.
-/
namespace IrSurvey.Listing
open Text

namespace Body

theorem length_lines_le (s : List Char) : (lines s).length ≤ s.length + 1 := by
  rw [lines, length_splitOn]
  exact Nat.succ_le_succ List.count_le_length

theorem length_instructions_items_le (s : List Char) :
    (instructions (items s)).length ≤ s.length + 1 :=
  calc (instructions (items s)).length
      ≤ (items s).length := List.length_filterMap_le _ _
    _ ≤ (lines s).length := List.length_filterMap_le _ _
    _ ≤ s.length + 1 := length_lines_le s

end Body

namespace Definition

/-- A definition is longer than its body. -/
theorem length_body_lt {s : List Char} {d : Definition} (hmem : d ∈ all s) :
    d.body.toList.length < s.length := by
  fun_induction all s with
  | case1 s h hread ih =>
      have hrest := Header.length_rest_lt hread
      rcases List.mem_append.1 hmem with hmem | hmem
      · obtain ⟨params, attributes, rest, htext, -⟩ := ofHeader?_sound (Option.mem_toList.1 hmem)
        rw [htext] at hrest
        simp only [List.length_append, List.length_cons] at hrest
        omega
      · exact Nat.lt_trans (ih hmem) hrest
  | case2 hread => cases hmem
  | case3 c r hread ih => exact Nat.lt_succ_of_lt (ih hmem)

theorem length_all_le (s : List Char) : (all s).length ≤ s.length := by
  fun_induction all s with
  | case1 s h hread ih =>
      have hrest := Header.length_rest_lt hread
      have hone : (ofHeader? h).toList.length ≤ 1 := Option.length_toList_le
      rw [List.length_append]
      omega
  | case2 hread => exact Nat.le_refl 0
  | case3 c r hread ih => exact Nat.le_succ_of_le ih

end Definition

theorem length_insertFunction_le (fs : List Function) (f : Function) :
    (insertFunction fs f).length ≤ fs.length + 1 := by
  rw [← List.length_map (·.name), map_name_insertFunction]
  split <;> simp

theorem length_foldl_insertFunction_le (fs gs : List Function) :
    (fs.foldl insertFunction gs).length ≤ gs.length + fs.length := by
  induction fs generalizing gs with
  | nil => exact Nat.le_refl _
  | cons f fs ih =>
      have hone := length_insertFunction_le gs f
      have hrest := ih (insertFunction gs f)
      rw [List.foldl_cons, List.length_cons]
      omega

variable {text : String} {f : Function}

theorem length_functions_le (text : String) : (ofText text).functions.length ≤ text.length := by
  have hfold := length_foldl_insertFunction_le
    ((programDefinitions text.toList).map Function.ofDefinition) []
  have hfilter : (programDefinitions text.toList).length ≤ (Definition.all text.toList).length :=
    List.length_filter_le _ _
  have hall := Definition.length_all_le text.toList
  rw [List.length_map, List.length_nil] at hfold
  rw [String.length_toList] at hall
  show (functionsOf (Definition.all text.toList)).length ≤ text.length
  rw [functionsOf_all]
  omega

theorem length_instructions_le (h : f ∈ (ofText text).functions) :
    f.instructions.length ≤ text.length := by
  obtain ⟨d, hd, rfl⟩ := exists_definition_of_mem_functions h
  have hbody := Definition.length_body_lt (List.mem_of_mem_filter hd)
  have hlength := Body.length_instructions_items_le d.body.toList
  rw [String.length_toList] at hbody
  exact Nat.le_trans hlength hbody

theorem position_le (h : f ∈ (ofText text).functions) :
    ∀ l ∈ f.labels, l.position ≤ text.length := by
  intro l hl
  have hinstructions := length_instructions_le h
  obtain ⟨d, -, rfl⟩ := exists_definition_of_mem_functions h
  have hl := Body.position_le_of_mem_labels l hl
  rw [Nat.zero_add] at hl
  exact Nat.le_trans hl hinstructions

/-- Bodies may lie in each other, so that a line counts for more than one function. -/
theorem instructionCount_le (text : String) :
    (ofText text).instructionCount ≤ text.length * text.length := by
  have hsum : (ofText text).instructionCount ≤
      ((ofText text).functions.map (·.instructions.length)).length • text.length := by
    apply List.sum_le_card_nsmul
    intro n hn
    obtain ⟨f, hf, rfl⟩ := List.mem_map.1 hn
    exact length_instructions_le hf
  rw [List.length_map, Nat.nsmul_eq_mul] at hsum
  exact Nat.le_trans hsum (Nat.mul_le_mul_right _ (length_functions_le text))

end IrSurvey.Listing
