import IrSurvey.Code.Body
import IrSurvey.Proofs.Listing.Body

/-!
The shown lines of a body, straight from its text. The labels are kept apart from the instructions
and come back in their places.
-/
namespace IrSurvey.Code
open Listing Text
open Listing.Body (Item items instructions labels item?)

variable (profile : Profile)

def itemLines : Item → List String
  | .label digits => if profile.showLabels then [labelLine digits] else []
  | .instruction code => (Instruction.lowerLine code).line?.toList

/-- What a line of a body shows: its label, or its instruction. -/
def lineText (line : List Char) : List String :=
  if Body.code line = [] then []
  else match Body.label? (Body.code line) with
    | some digits =>
      if profile.showLabels then ["// Basic block " ++ String.ofList digits ++ ":"] else []
    | none => (Instruction.lowerLine (String.ofList (Body.code line))).line?.toList

theorem flatMap_item? (line : List Char) :
    (item? line).toList.flatMap (itemLines profile) = lineText profile line := by
  unfold item? lineText
  by_cases hcode : Body.code line = []
  · rw [if_pos hcode, if_pos hcode]
    rfl
  · rw [if_neg hcode, if_neg hcode]
    cases Body.label? (Body.code line) with
    | none => exact List.flatMap_singleton _ _
    | some digits => exact List.flatMap_singleton _ _

/-! ## Labels in their places -/

theorem labelLines_cons (l : BlockLabel) (ls : List BlockLabel) :
    labelLines profile (l :: ls) = itemLines profile (.label l.label) ++ labelLines profile ls := by
  by_cases h : profile.showLabels
  · simp only [labelLines, itemLines, if_pos h, List.map_cons, List.singleton_append]
  · simp only [labelLines, itemLines, if_neg h, List.nil_append]

/-- A label that is due comes first, whatever instruction is next. -/
theorem linesFrom_cons_label {n : Nat} {l : BlockLabel} (hl : l.position ≤ n)
    (codes : List String) (ls : List BlockLabel) :
    linesFrom profile n codes (l :: ls) =
      itemLines profile (.label l.label) ++ linesFrom profile n codes ls := by
  cases codes with
  | nil => exact labelLines_cons profile l ls
  | cons code codes =>
      have hdue : decide (l.position ≤ n) = true := decide_eq_true hl
      simp only [linesFrom, List.takeWhile_cons, List.dropWhile_cons, hdue, if_true,
        labelLines_cons, List.append_assoc]

/-- An instruction comes first while no label is due. -/
theorem linesFrom_cons_instruction {n : Nat} {ls : List BlockLabel}
    (hls : ∀ l ∈ ls, n < l.position) (code : String) (codes : List String) :
    linesFrom profile n (code :: codes) ls =
      itemLines profile (.instruction code) ++ linesFrom profile (n + 1) codes ls := by
  cases ls with
  | nil => simp [linesFrom, labelLines, itemLines]
  | cons l ls =>
      have hwait : decide (l.position ≤ n) = false :=
        decide_eq_false (Nat.not_le.2 (hls l List.mem_cons_self))
      have hnone : labelLines profile [] = [] := by simp [labelLines]
      simp only [linesFrom, List.takeWhile_cons, List.dropWhile_cons, hwait, Bool.false_eq_true,
        if_false, hnone, List.nil_append, itemLines]

/-- Every item shows its lines in its place: a label stands at the number of instructions before
it, and so before the next one and after all others. -/
theorem linesFrom_items (n : Nat) (is : List Item) :
    linesFrom profile n (instructions is) (labels n is) = is.flatMap (itemLines profile) := by
  induction is generalizing n with
  | nil => simp [instructions, labels, linesFrom, labelLines]
  | cons i is ih =>
      cases i with
      | label digits =>
          calc linesFrom profile n (instructions (.label digits :: is))
                (labels n (.label digits :: is))
              = itemLines profile (.label digits) ++
                  linesFrom profile n (instructions is) (labels n is) :=
                linesFrom_cons_label profile (Nat.le_refl n) _ _
            _ = (Item.label digits :: is).flatMap (itemLines profile) := by
                rw [ih, List.flatMap_cons]
      | instruction code =>
          have hwait : ∀ l ∈ labels (n + 1) is, n < l.position :=
            Body.le_position_of_mem_labels
          calc linesFrom profile n (instructions (.instruction code :: is))
                (labels n (.instruction code :: is))
              = itemLines profile (.instruction code) ++
                  linesFrom profile (n + 1) (instructions is) (labels (n + 1) is) :=
                linesFrom_cons_instruction profile hwait _ _
            _ = (Item.instruction code :: is).flatMap (itemLines profile) := by
                rw [ih, List.flatMap_cons]

theorem flatMap_itemLines (body : List Char) :
    (items body).flatMap (itemLines profile) = (endedLines body).flatMap (lineText profile) := by
  rw [Body.flatMap_items]
  simp only [flatMap_item?]

/-! ## The cap -/

theorem cap_eq_ite (most : Nat) (ls : List String) :
    cap most ls =
      if ls.length ≤ most then ls
      else ls.take most ++
        ["// ... " ++ toString (ls.length - most) ++ " more lines omitted ..."] := by
  by_cases h : ls.length ≤ most
  · rw [cap, if_neg (Nat.not_lt.2 h), if_pos h]
  · rw [cap, if_pos (Nat.lt_of_not_le h), if_neg h, omittedLine]

/-- A body shows what its lines show, one after the other, up to the cap. -/
theorem bodyLines_eq_lineText {f : Function} {body : List Char}
    (hinstructions : f.instructions = instructions (items body))
    (hlabels : f.labels = labels 0 (items body)) :
    bodyLines profile f =
      let shown := (endedLines body).flatMap (lineText profile)
      if shown.length ≤ profile.maxLines then shown
      else shown.take profile.maxLines ++
        ["// ... " ++ toString (shown.length - profile.maxLines) ++ " more lines omitted ..."] := by
  rw [bodyLines, hinstructions, hlabels, linesFrom_items, flatMap_itemLines, cap_eq_ite]

theorem bodyLines_eq_lineText_cut :
    let body := "0:\n1: ; \"preds\"\n  %a = phi i32\n  ret void ; \"\r\n2:".toList
    let f : Function :=
      { name := "f"
        returnType := "void"
        parameters := []
        instructions := ["%a = phi i32", "ret void"]
        labels := [⟨"0", 0⟩, ⟨"1", 0⟩, ⟨"2", 2⟩] }
    f.instructions = instructions (items body) ∧ f.labels = labels 0 (items body) ∧
      bodyLines { maxLines := 3, showLabels := true } f =
        ["// Basic block 0:", "// Basic block 1:", "return;",
          "// ... 1 more lines omitted ..."] := by
  intro body f
  have hinstructions : f.instructions = instructions (items body) := by decide +kernel
  have hlabels : f.labels = labels 0 (items body) := by decide +kernel
  refine ⟨hinstructions, hlabels, ?_⟩
  rw [bodyLines_eq_lineText _ hinstructions hlabels]
  decide +kernel

end IrSurvey.Code
