import IrSurvey.Proofs.Code.Body

/-!
The places of labels in any order. A label waits for those before it in the list, so it stands in
front of the instruction at the largest position up to its own, or behind all instructions. No label
is lost, and what the cap leaves out is counted.
-/
namespace IrSurvey.Code
open Listing (BlockLabel Function)

/-- The largest position of the label at an index and of those before it. -/
def reach (ls : List BlockLabel) (k : Nat) : Nat :=
  ((ls.take (k + 1)).map (·.position)).foldr max 0

/-- The labels that are due at an instruction and were due at no earlier one. -/
def due (ls : List BlockLabel) (i : Nat) : List BlockLabel :=
  (ls.zipIdx.filter fun p => reach ls p.2 ≤ i ∧ ∀ j < i, ¬ reach ls p.2 ≤ j).map (·.1)

/-- The labels that are due at none of the first `n` instructions. -/
def leftOver (ls : List BlockLabel) (n : Nat) : List BlockLabel :=
  (ls.zipIdx.filter fun p => ∀ j < n, ¬ reach ls p.2 ≤ j).map (·.1)

/-- The lines of a body before any is cut, with what is written for a label. -/
def shownLines (comment : BlockLabel → List String) (f : Function) : List String :=
  (f.instructions.zipIdx.flatMap fun p =>
      (due f.labels p.2).flatMap comment ++ (Instruction.lowerLine p.1).line?.toList) ++
    (leftOver f.labels f.instructions.length).flatMap comment

/-- The labels, each with the largest position up to it and in front of them, `m`. -/
def ranked (m : Nat) : List BlockLabel → List (BlockLabel × Nat)
  | [] => []
  | l :: ls => (l, max m l.position) :: ranked (max m l.position) ls

variable {m n : Nat} {ls : List BlockLabel}

theorem ranked_eq (m : Nat) (ls : List BlockLabel) :
    ranked m ls = ls.zipIdx.map fun p => (p.1, max m (reach ls p.2)) := by
  induction ls generalizing m with
  | nil => rfl
  | cons l ls ih =>
      have hfirst : reach (l :: ls) 0 = l.position := Nat.max_zero _
      have hnext : ∀ k, max m (reach (l :: ls) (k + 1)) = max (max m l.position) (reach ls k) :=
        fun k => (Nat.max_assoc ..).symm
      rw [ranked, ih, List.zipIdx_cons, List.map_cons, hfirst, List.zipIdx_succ, List.map_map]
      simp only [Function.comp_def, hnext]

theorem le_of_mem_ranked : ∀ p ∈ ranked m ls, m ≤ p.2 := by
  induction ls generalizing m with
  | nil => exact nofun
  | cons l ls ih =>
      refine List.forall_mem_cons.2 ⟨Nat.le_max_left m l.position, fun p hp => ?_⟩
      exact Nat.le_trans (Nat.le_max_left m l.position) (ih p hp)

theorem filter_rank_of_le {ps : List (BlockLabel × Nat)} (h : ∀ p ∈ ps, n + 1 ≤ p.2) :
    ps.filter (n ≤ ·.2) = ps ∧ ps.filter (n + 1 ≤ ·.2) = ps ∧ ps.filter (·.2 = n) = [] := by
  refine ⟨List.filter_eq_self.2 fun p hp => decide_eq_true (Nat.le_of_succ_le (h p hp)),
    List.filter_eq_self.2 fun p hp => decide_eq_true (h p hp),
    List.filter_eq_nil_iff.2 fun p hp he => ?_⟩
  exact Nat.ne_of_gt (h p hp) (of_decide_eq_true he)

/-- The labels that wait at an instruction start with those that are due there. -/
theorem span_ranked (hm : m ≤ n) :
    (((ranked m ls).filter (n ≤ ·.2)).map (·.1)).takeWhile (·.position ≤ n) =
        ((ranked m ls).filter (·.2 = n)).map (·.1) ∧
      (((ranked m ls).filter (n ≤ ·.2)).map (·.1)).dropWhile (·.position ≤ n) =
        ((ranked m ls).filter (n + 1 ≤ ·.2)).map (·.1) := by
  induction ls generalizing m with
  | nil => exact ⟨rfl, rfl⟩
  | cons l ls ih =>
      rw [ranked]
      rcases Nat.lt_trichotomy (max m l.position) n with hlt | heq | hgt
      · have hwaits : ¬ n ≤ max m l.position := Nat.not_le.2 hlt
        have hlater : ¬ n + 1 ≤ max m l.position := by omega
        have hother : ¬ max m l.position = n := Nat.ne_of_lt hlt
        simpa only [List.filter_cons, hwaits, hlater, hother, decide_false, Bool.false_eq_true,
          if_false] using ih (Nat.le_of_lt hlt)
      · have hposition : l.position ≤ n := heq ▸ Nat.le_max_right m l.position
        obtain ⟨htake, hdrop⟩ := ih (Nat.le_refl n)
        rw [heq]
        simp [hposition, htake, hdrop]
      · -- the label is not due, and so none behind it is
        have hposition : ¬ l.position ≤ n := by omega
        have hwait : ∀ p ∈ (l, max m l.position) :: ranked (max m l.position) ls, n + 1 ≤ p.2 :=
          List.forall_mem_cons.2 ⟨hgt, fun p hp => Nat.le_trans hgt (le_of_mem_ranked p hp)⟩
        obtain ⟨hall, hlater, hnone⟩ := filter_rank_of_le hwait
        rw [hall, hlater, hnone]
        simp [hposition]

theorem due_eq (ls : List BlockLabel) (i : Nat) :
    due ls i = ((ranked 0 ls).filter (·.2 = i)).map (·.1) := by
  have hplace : ∀ r, (r ≤ i ∧ ∀ j < i, ¬ r ≤ j) ↔ max 0 r = i := fun r => by
    rw [Nat.zero_max]
    constructor
    · rintro ⟨hle, hnot⟩
      exact Nat.le_antisymm hle (Nat.le_of_not_lt fun hlt => hnot r hlt (Nat.le_refl r))
    · rintro rfl
      exact ⟨Nat.le_refl r, fun j hj => Nat.not_le.2 hj⟩
  rw [ranked_eq, List.filter_map, List.map_map]
  simp only [due, hplace, Function.comp_def]

theorem leftOver_eq (ls : List BlockLabel) (n : Nat) :
    leftOver ls n = ((ranked 0 ls).filter (n ≤ ·.2)).map (·.1) := by
  have hplace : ∀ r, (∀ j < n, ¬ r ≤ j) ↔ n ≤ max 0 r := fun r => by
    rw [Nat.zero_max]
    constructor
    · exact fun hnot => Nat.le_of_not_lt fun hlt => hnot r hlt (Nat.le_refl r)
    · exact fun hle j hj => Nat.not_le.2 (Nat.lt_of_lt_of_le hj hle)
  rw [ranked_eq, List.filter_map, List.map_map]
  simp only [leftOver, hplace, Function.comp_def]

theorem takeWhile_leftOver (ls : List BlockLabel) (n : Nat) :
    (leftOver ls n).takeWhile (·.position ≤ n) = due ls n := by
  rw [leftOver_eq, due_eq]
  exact (span_ranked (Nat.zero_le n)).1

theorem dropWhile_leftOver (ls : List BlockLabel) (n : Nat) :
    (leftOver ls n).dropWhile (·.position ≤ n) = leftOver ls (n + 1) := by
  rw [leftOver_eq, leftOver_eq]
  exact (span_ranked (Nat.zero_le n)).2

theorem leftOver_zero (ls : List BlockLabel) : leftOver ls 0 = ls := by
  simp [leftOver]

/-- Every label is due at one instruction or left over, and their order is that of the list. -/
theorem flatMap_due_append_leftOver (ls : List BlockLabel) (n : Nat) :
    (List.range n).flatMap (due ls) ++ leftOver ls n = ls := by
  induction n with
  | zero => exact leftOver_zero ls
  | succ n ih =>
      have hsplit : due ls n ++ leftOver ls (n + 1) = leftOver ls n := by
        rw [← takeWhile_leftOver, ← dropWhile_leftOver, List.takeWhile_append_dropWhile]
      rw [List.range_succ, List.flatMap_append, List.flatMap_singleton, List.append_assoc, hsplit, ih]

example :
    let ls : List BlockLabel := [⟨"1", 2⟩, ⟨"2", 0⟩, ⟨"3", 9⟩]
    due ls 0 = [] ∧ due ls 2 = [⟨"1", 2⟩, ⟨"2", 0⟩] ∧ leftOver ls 3 = [⟨"3", 9⟩] := by
  decide

/-! ## The lines of a body -/

theorem labelLines_eq_flatMap (profile : Profile) (ls : List BlockLabel) :
    labelLines profile ls =
      ls.flatMap fun l =>
        if profile.showLabels then ["// Basic block " ++ l.label ++ ":"] else [] := by
  induction ls with
  | nil => simp [labelLines]
  | cons l ls ih =>
      rw [labelLines_cons, ih, List.flatMap_cons]
      rfl

theorem linesFrom_leftOver (profile : Profile) (n : Nat) (codes : List String)
    (ls : List BlockLabel) :
    linesFrom profile n codes (leftOver ls n) =
      ((codes.zipIdx n).flatMap fun p =>
          labelLines profile (due ls p.2) ++ (Instruction.lowerLine p.1).line?.toList) ++
        labelLines profile (leftOver ls (n + codes.length)) := by
  induction codes generalizing n with
  | nil => rfl
  | cons code codes ih =>
      rw [linesFrom, takeWhile_leftOver, dropWhile_leftOver, ih, List.zipIdx_cons,
        List.flatMap_cons, List.length_cons, Nat.add_assoc n, Nat.add_comm 1]
      simp only [List.append_assoc]

theorem linesFrom_eq_shownLines (profile : Profile) (f : Function) :
    linesFrom profile 0 f.instructions f.labels =
      shownLines
        (fun l => if profile.showLabels then ["// Basic block " ++ l.label ++ ":"] else []) f := by
  have h := linesFrom_leftOver profile 0 f.instructions f.labels
  rw [leftOver_zero, Nat.zero_add] at h
  simp only [h, shownLines, labelLines_eq_flatMap]

/-- Before the cap a body shows each label in front of the first instruction that no position up to
the label exceeds, or at the end. The cap keeps as many lines as the profile allows and counts the
others. -/
theorem bodyLines_eq_shownLines (profile : Profile) (f : Function) :
    let comment : BlockLabel → List String := fun l =>
      if profile.showLabels then ["// Basic block " ++ l.label ++ ":"] else []
    let shown := shownLines comment f
    (bodyLines profile f =
      if shown.length ≤ profile.maxLines then shown
      else shown.take profile.maxLines ++
        ["// ... " ++ toString (shown.length - profile.maxLines) ++ " more lines omitted ..."]) ∧
    (bodyLines profile f).length ≤ profile.maxLines + 1 ∧
    (shown.take profile.maxLines).length + (shown.length - profile.maxLines) = shown.length ∧
    (List.range f.instructions.length).flatMap (due f.labels) ++
      leftOver f.labels f.instructions.length = f.labels := by
  intro comment shown
  have hlines : bodyLines profile f =
      if shown.length ≤ profile.maxLines then shown
      else shown.take profile.maxLines ++
        ["// ... " ++ toString (shown.length - profile.maxLines) ++ " more lines omitted ..."] := by
    rw [bodyLines, linesFrom_eq_shownLines, cap_eq_ite]
  refine ⟨hlines, ?_, ?_, flatMap_due_append_leftOver f.labels f.instructions.length⟩
  · rw [hlines]
    split
    next h => exact Nat.le_succ_of_le h
    next =>
        rw [List.length_append, List.length_take]
        exact Nat.succ_le_succ (Nat.min_le_left _ _)
  · rw [List.length_take]
    omega

end IrSurvey.Code
