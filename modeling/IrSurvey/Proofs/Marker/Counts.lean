import Mathlib.Algebra.GroupWithZero.Nat
import IrSurvey.Marker.Counts
import IrSurvey.Proofs.Text.Line

/-!
Marks are found line by line: none reaches over a newline, and the search starts afresh behind each.
So the counts of lines add up, and their order does not matter.
-/
namespace IrSurvey
open Text

variable {w s : List Char}

/-! ## No mark reaches over a newline -/

theorem afterLast?_append_newline (hw : '\n' ∉ w) (s t : List Char) :
    afterLast? w (s ++ '\n' :: t) = (afterLast? w s).map (· ++ '\n' :: t) := by
  induction s with
  | nil => exact isPrefixOf?_append_newline hw [] t
  | cons c s ih =>
      have hfront := isPrefixOf?_append_newline hw (c :: s) t
      rw [List.cons_append] at hfront ⊢
      rw [afterLast?, afterLast?, ih, hfront]
      by_cases hc : c = '\n'
      · simp only [if_pos hc]
      · simp only [if_neg hc]
        cases afterLast? w s with
        | none => rfl
        | some r => rfl

namespace Mark

variable {m : Mark} {marks : List Mark}

/-- The words of a mark have no newline. -/
def OneLine : Mark → Prop
  | .word w _ => Text.OneLine w
  | .phrase first last _ => Text.OneLine first ∧ Text.OneLine last

instance : (m : Mark) → Decidable m.OneLine
  | .word w _ => inferInstanceAs (Decidable (Text.OneLine w))
  | .phrase first last _ => inferInstanceAs (Decidable (Text.OneLine first ∧ Text.OneLine last))

theorem after?_append_newline (hm : m.OneLine) (s t : List Char) :
    m.after? (s ++ '\n' :: t) = (m.after? s).map (· ++ '\n' :: t) := by
  cases m with
  | word w _ => exact isPrefixOf?_append_newline hm s t
  | phrase first last _ =>
      rw [after?, after?, isPrefixOf?_append_newline hm.1]
      cases first.toList.isPrefixOf? s with
      | none => rfl
      | some r => exact afterLast?_append_newline hm.2 r t

theorem findSome?_after?_append_newline (hmarks : ∀ m ∈ marks, m.OneLine) (s t : List Char) :
    marks.findSome? (·.after? (s ++ '\n' :: t)) =
      (marks.findSome? (·.after? s)).map (· ++ '\n' :: t) := by
  induction marks with
  | nil => rfl
  | cons m marks ih =>
      rw [List.findSome?_cons, List.findSome?_cons,
        after?_append_newline (hmarks m List.mem_cons_self),
        ih fun n hn => hmarks n (List.mem_cons_of_mem m hn)]
      cases m.after? s with
      | none => rfl
      | some r => rfl

theorem after?_nil (m : Mark) : m.after? [] = none := by
  cases h : m.after? [] with
  | none => rfl
  | some r => exact absurd (length_after?_lt h) (Nat.not_lt_zero _)

theorem count_nil (marks : List Mark) : count marks [] = 0 := by
  rw [count]
  split
  next r h =>
      obtain ⟨m, -, hm⟩ := List.exists_of_findSome?_eq_some h
      rw [after?_nil] at hm
      cases hm
  next => rfl

theorem count_of_eq_some {r : List Char} (h : marks.findSome? (·.after? s) = some r) :
    count marks s = count marks r + 1 := by
  rw [count]
  split
  next q hq => rw [Option.some.inj (hq.symm.trans h)]
  next hq => rw [h] at hq; cases hq

theorem count_cons_of_eq_none {c : Char} (h : marks.findSome? (·.after? (c :: s)) = none) :
    count marks (c :: s) = count marks s := by
  rw [count]
  split
  next q hq => rw [h] at hq; cases hq
  next => rfl

/-- Induction along a search: a mark found leaves a shorter rest, and where there is none one
character is passed over. -/
theorem search_induction {motive : List Char → Prop} (marks : List Mark)
    (found : ∀ s r, marks.findSome? (·.after? s) = some r → motive r → motive s)
    (nil : motive [])
    (skip : ∀ c s, marks.findSome? (·.after? (c :: s)) = none → motive s → motive (c :: s))
    (s : List Char) : motive s := by
  induction hn : s.length using Nat.strongRecOn generalizing s with
  | ind n ih =>
      cases hs : marks.findSome? (·.after? s) with
      | some r =>
          obtain ⟨m, -, hm⟩ := List.exists_of_findSome?_eq_some hs
          exact found s r hs (ih r.length (hn ▸ length_after?_lt hm) r rfl)
      | none =>
          cases s with
          | nil => exact nil
          | cons c s => exact skip c s hs (ih s.length (hn ▸ Nat.lt_succ_self s.length) s rfl)

/-- Each mark takes a character at least. -/
theorem count_le_length (marks : List Mark) (s : List Char) : count marks s ≤ s.length := by
  induction s using search_induction marks with
  | found s r hs ih =>
      obtain ⟨m, -, hm⟩ := List.exists_of_findSome?_eq_some hs
      rw [count_of_eq_some hs]
      exact Nat.lt_of_le_of_lt ih (length_after?_lt hm)
  | nil => exact Nat.le_of_eq (count_nil marks)
  | skip c s hs ih =>
      rw [count_cons_of_eq_none hs]
      exact Nat.le_succ_of_le ih

/-- Behind a newline the count starts afresh. -/
theorem count_append_newline (hmarks : ∀ m ∈ marks, m.OneLine) (s t : List Char) :
    count marks (s ++ '\n' :: t) = count marks s + count marks t := by
  induction s using search_induction marks with
  | found s r hs ih =>
      have hfound := findSome?_after?_append_newline hmarks s t
      rw [hs] at hfound
      rw [count_of_eq_some hfound, count_of_eq_some hs, ih]
      exact Nat.add_right_comm _ _ _
  | nil =>
      have hfound := findSome?_after?_append_newline hmarks [] t
      rw [List.findSome?_eq_none_iff.2 fun m _ => after?_nil m] at hfound
      rw [List.nil_append, count_cons_of_eq_none hfound, count_nil, Nat.zero_add]
  | skip c s hs ih =>
      have hfound := findSome?_after?_append_newline hmarks (c :: s) t
      rw [hs] at hfound
      rw [count_cons_of_eq_none hs, ← ih]
      exact count_cons_of_eq_none hfound

end Mark

/-! ## Counts over lines -/

namespace MarkerKind

theorem oneLine_marks (kind : MarkerKind) : ∀ m ∈ kind.signature.marks, m.OneLine := by
  cases kind <;> decide

theorem count_signature_append_newline (kind : MarkerKind) (s t : List Char) :
    kind.signature.count (s ++ '\n' :: t) = kind.signature.count s + kind.signature.count t := by
  unfold Signature.count
  split
  next =>
      -- folding leaves the newline where it is
      have hfold : fold '\n' = '\n' := by decide
      rw [List.map_append, List.map_cons, hfold]
      exact Mark.count_append_newline kind.oneLine_marks _ _
  next => exact Mark.count_append_newline kind.oneLine_marks s t

theorem count_signature_nil (kind : MarkerKind) : kind.signature.count [] = 0 := by
  unfold Signature.count
  split <;> exact Mark.count_nil _

theorem count_signature_le_length (kind : MarkerKind) (s : List Char) :
    kind.signature.count s ≤ s.length := by
  unfold Signature.count
  split
  next =>
      have hfold := Mark.count_le_length kind.signature.marks (s.map fold)
      rw [List.length_map] at hfold
      exact hfold
  next => exact Mark.count_le_length _ s

/-- The marks of lines are those of each line. -/
theorem count_signature_unlines (kind : MarkerKind) (ls : List (List Char)) :
    kind.signature.count (unlines ls) = (ls.map kind.signature.count).sum := by
  induction ls with
  | nil => exact kind.count_signature_nil
  | cons l ls ih =>
      cases ls with
      | nil => simp [unlines]
      | cons m ls =>
          have hjoin : unlines (l :: m :: ls) = l ++ '\n' :: unlines (m :: ls) := by
            simp [unlines, List.intercalate_cons_cons]
          rw [hjoin, count_signature_append_newline, ih, ← List.sum_cons, ← List.map_cons]

end MarkerKind

namespace MarkerCounts

theorem get_ofText (text : String) (kind : MarkerKind) :
    (ofText text).get kind = kind.signature.count text.toList := by
  show (if kind.signature.count text.toList = 0 then none
    else some (kind.signature.count text.toList)).getD 0 = _
  split
  next h => exact h.symm
  next => rfl

/-- The marks of two texts with a newline between them add up; and so the marks of a text stay as
many when its lines change places. -/
theorem get_ofText_lines :
    (∀ (a b : String) (kind : MarkerKind),
      (ofText (a ++ "\n" ++ b)).get kind = (ofText a).get kind + (ofText b).get kind) ∧
    ∀ (text : String) (ls : List (List Char)), ls.Perm (lines text.toList) →
      ∀ kind : MarkerKind,
        (ofText (String.ofList (unlines ls))).get kind = (ofText text).get kind := by
  constructor
  · intro a b kind
    have hjoin : (a ++ "\n" ++ b).toList = a.toList ++ '\n' :: b.toList := by
      simp only [String.toList_append, List.append_assoc]
      rfl
    rw [get_ofText, get_ofText, get_ofText, hjoin, kind.count_signature_append_newline]
  · intro text ls hperm kind
    calc (ofText (String.ofList (unlines ls))).get kind
        = (ls.map kind.signature.count).sum := by
          rw [get_ofText, String.toList_ofList, kind.count_signature_unlines]
      _ = ((lines text.toList).map kind.signature.count).sum := (hperm.map _).sum_nat
      _ = (ofText text).get kind := by
          rw [← kind.count_signature_unlines, unlines_lines, get_ofText]

/-- A phrase that is cut by a newline is no mark, in whatever order its lines stand. -/
theorem get_ofText_lines_swapped :
    ["; loop".toList, "; fake dummy".toList].Perm (lines "; fake dummy\n; loop".toList) ∧
      (ofText (String.ofList (unlines ["; loop".toList, "; fake dummy".toList]))).get .fakeLoop =
        (ofText "; fake dummy\n; loop").get .fakeLoop ∧
      (ofText ("; dummy loop" ++ "\n" ++ "; fake dummy")).get .fakeLoop =
        (ofText "; dummy loop").get .fakeLoop + (ofText "; fake dummy").get .fakeLoop := by
  have hperm : ["; loop".toList, "; fake dummy".toList].Perm
      (lines "; fake dummy\n; loop".toList) := by
    decide
  exact ⟨hperm, get_ofText_lines.2 _ _ hperm _, get_ofText_lines.1 _ _ _⟩

end MarkerCounts
end IrSurvey
