import IrSurvey.Proofs.Listing.Body

/-!
Labels and the code beside them. Every line of a body that says something gives one instruction or
one label, in the order of the lines. A line that starts with a label gives nothing else: code
behind the colon is in no listing.
-/
namespace IrSurvey.Listing.Body
open Text

variable {line digits : List Char}

/-- What a line gives: nothing, its label, or its whole code. -/
theorem item?_cases (line : List Char) :
    (code line = [] ∧ item? line = none) ∨
    (∃ digits, label? (code line) = some digits ∧
      item? line = some (.label (String.ofList digits))) ∨
    (code line ≠ [] ∧ ¬ StartsLabel (code line) ∧
      item? line = some (.instruction (String.ofList (code line)))) := by
  unfold item?
  split
  next hcode => exact .inl ⟨hcode, rfl⟩
  next hcode =>
      cases hlabel : label? (code line) with
      | some digits => exact .inr (.inl ⟨digits, rfl, rfl⟩)
      | none => exact .inr (.inr ⟨hcode, by simp [startsLabel_iff, hlabel], rfl⟩)

/-- The lines that say something and start with no label, as instructions. -/
def unlabelled (ls : List (List Char)) : List String :=
  ((ls.map code).filter fun c => c ≠ [] ∧ ¬ StartsLabel c).map String.ofList

theorem unlabelled_cons (line : List Char) (ls : List (List Char)) :
    unlabelled (line :: ls) =
      if code line ≠ [] ∧ ¬ StartsLabel (code line) then
        String.ofList (code line) :: unlabelled ls
      else unlabelled ls := by
  unfold unlabelled
  split
  next h => simp [h.1, h.2]
  next h => simp [h]

theorem instructions_filterMap_item? (ls : List (List Char)) :
    instructions (ls.filterMap item?) = unlabelled ls := by
  induction ls with
  | nil => rfl
  | cons line ls ih =>
      rw [unlabelled_cons, ← ih]
      rcases item?_cases line with ⟨hcode, hitem⟩ | ⟨digits, hlabel, hitem⟩ | ⟨hcode, hlabel, hitem⟩
      · rw [List.filterMap_cons_none hitem, if_neg fun h => h.1 hcode]
      · have hstarts : StartsLabel (code line) :=
          startsLabel_iff.2 (Option.isSome_of_eq_some hlabel)
        rw [List.filterMap_cons_some hitem, if_neg fun h => h.2 hstarts]
        rfl
      · rw [List.filterMap_cons_some hitem, if_pos ⟨hcode, hlabel⟩]
        rfl

theorem map_label_labels_filterMap_item? (n : Nat) (ls : List (List Char)) :
    (labels n (ls.filterMap item?)).map (·.label) =
      ((ls.map code).filterMap label?).map String.ofList := by
  induction ls generalizing n with
  | nil => rfl
  | cons line ls ih =>
      rw [List.map_cons (f := code)]
      rcases item?_cases line with ⟨hcode, hitem⟩ | ⟨digits, hlabel, hitem⟩ | ⟨-, hlabel, hitem⟩
      · have hnone : label? (code line) = none := by rw [hcode]; rfl
        rw [List.filterMap_cons_none hitem, List.filterMap_cons_none hnone, ih]
      · rw [List.filterMap_cons_some hitem, List.filterMap_cons_some hlabel, labels, List.map_cons,
          ih, List.map_cons]
      · have hnone : label? (code line) = none := by
          rwa [startsLabel_iff, Option.not_isSome_iff_eq_none] at hlabel
        rw [List.filterMap_cons_some hitem, List.filterMap_cons_none hnone, labels, ih]

theorem mem_unlabelled_iff {ls : List (List Char)} {s : String} :
    s ∈ unlabelled ls ↔
      ∃ line ∈ ls, code line ≠ [] ∧ ¬ StartsLabel (code line) ∧ String.ofList (code line) = s := by
  simp only [unlabelled, List.mem_map, List.mem_filter, decide_eq_true_eq]
  constructor
  · rintro ⟨_, ⟨⟨line, hline, rfl⟩, hcode, hlabel⟩, hs⟩
    exact ⟨line, hline, hcode, hlabel, hs⟩
  · rintro ⟨line, hline, hcode, hlabel, hs⟩
    exact ⟨code line, ⟨⟨line, hline, rfl⟩, hcode, hlabel⟩, hs⟩

/-- The instructions of a body are the codes of its lines that start with no label, and its labels
are those with which the other codes start, both in the order of the lines. -/
theorem items_eq_lines (body : List Char) :
    instructions (items body) = unlabelled (endedLines body) ∧
      (labels 0 (items body)).map (·.label) =
        (((endedLines body).map code).filterMap label?).map String.ofList := by
  rw [items_eq_filterMap_endedLines]
  exact ⟨instructions_filterMap_item? _, map_label_labels_filterMap_item? 0 _⟩

/-! ## What stands behind a label -/

/-- A label at the front of a line is its code up to the colon, whatever follows. -/
theorem code_label {g : List Char} (hg : AllBlank g) (hne : digits ≠ [])
    (hdigits : ∀ c ∈ digits, isDigit c = true) (r : List Char) :
    code (g ++ (digits ++ ':' :: r)) = digits ++ ':' :: trimEnd (uncomment false r) := by
  have hplain : ∀ c ∈ digits ++ [':'], c ≠ '"' ∧ c ≠ ';' := by
    intro c hc
    rcases List.mem_append.1 hc with hc | hc
    · constructor
      · rintro rfl
        exact absurd (hdigits _ hc) (by decide)
      · rintro rfl
        exact absurd (hdigits _ hc) (by decide)
    · rw [List.mem_singleton.1 hc]
      decide
  have hread : uncomment false (digits ++ ':' :: r) = digits ++ ':' :: uncomment false r := by
    simpa using uncomment_append_of_plain hplain false r
  have hsolid : FrontSolid (digits ++ ':' :: uncomment false r) := by
    rw [frontSolid_append hne]
    intro c hc
    have hdigit := hdigits c (List.mem_of_mem_head? hc)
    exact Bool.eq_false_iff.2 fun hblank => by simp [isDigit_of_isBlank hblank] at hdigit
  rw [code, uncomment_append hg, hread, trim, trimStart_append hg, trimStart_eq_self hsolid,
    trimEnd_append_cons (by decide)]

theorem item?_label {g : List Char} (hg : AllBlank g) (hne : digits ≠ [])
    (hdigits : ∀ c ∈ digits, isDigit c = true) (r : List Char) :
    item? (g ++ (digits ++ ':' :: r)) = some (.label (String.ofList digits)) := by
  have hlabel : label? (code (g ++ (digits ++ ':' :: r))) = some digits :=
    label?_eq_some_iff.2 ⟨hne, hdigits, _, code_label hg hne hdigits r⟩
  rcases item?_cases (g ++ (digits ++ ':' :: r)) with ⟨hcode, -⟩ | ⟨ds, hds, hitem⟩ | ⟨-, hno, -⟩
  · rw [hcode] at hlabel
    cases hlabel
  · obtain rfl := Option.some.inj (hlabel.symm.trans hds)
    exact hitem
  · exact absurd (startsLabel_iff.2 (Option.isSome_of_eq_some hlabel)) hno

theorem items_unlines {ls : List (List Char)} (hne : ls ≠ []) :
    items (unlines ls) = ls.flatMap items := by
  rw [items, lines_unlines_flatMap hne, List.filterMap_flatMap]
  rfl

theorem label_split_unique {digits' rest rest' : List Char}
    (hdigits : ∀ c ∈ digits, isDigit c = true) (hdigits' : ∀ c ∈ digits', isDigit c = true)
    (h : digits ++ ':' :: rest = digits' ++ ':' :: rest') : digits = digits' ∧ rest = rest' := by
  have hcolon : isDigit ':' = false := by decide
  have htake := congrArg (List.takeWhile isDigit) h
  rw [takeWhile_append_cons hdigits hcolon, takeWhile_append_cons hdigits' hcolon] at htake
  subst htake
  exact ⟨rfl, (List.cons.inj (List.append_cancel_left h)).2⟩

/-- The code of a line is an instruction of the body, or a label with no code behind the colon that
is not an instruction. -/
def Kept (body line : List Char) : Prop :=
  code line = [] ∨ String.ofList (code line) ∈ instructions (items body) ∨
    ∃ digits rest, digits ≠ [] ∧ (∀ c ∈ digits, isDigit c = true) ∧
      code line = digits ++ ':' :: rest ∧
      (AllBlank rest ∨ String.ofList (trim rest) ∈ instructions (items body))

/-- Only code behind a label can be lost, and it is unless another line repeats it. -/
theorem kept_iff {body : List Char} (hline : line ∈ endedLines body) :
    Kept body line ↔
      ∀ digits rest, digits ≠ [] → (∀ c ∈ digits, isDigit c = true) →
        code line = digits ++ ':' :: rest →
          AllBlank rest ∨ String.ofList (trim rest) ∈ instructions (items body) := by
  constructor
  · rintro (hcode | hcode | ⟨ds, r, -, hds, hcode, hrest⟩) digits rest hne hdigits hlabel
    · exact absurd (hlabel.symm.trans hcode) (by simp)
    · rw [(items_eq_lines body).1] at hcode
      obtain ⟨other, -, -, hno, he⟩ := mem_unlabelled_iff.1 hcode
      rw [String.ofList_injective he] at hno
      exact absurd ⟨digits, rest, hne, hdigits, hlabel⟩ hno
    · obtain ⟨-, rfl⟩ := label_split_unique hds hdigits (hcode.symm.trans hlabel)
      exact hrest
  · intro h
    rcases item?_cases line with ⟨hcode, -⟩ | ⟨digits, hlabel, -⟩ | ⟨hcode, hlabel, -⟩
    · exact .inl hcode
    · obtain ⟨hne, hdigits, rest, hcode⟩ := label?_eq_some_iff.1 hlabel
      exact .inr (.inr ⟨digits, rest, hne, hdigits, hcode, h digits rest hne hdigits hcode⟩)
    · refine .inr (.inl ?_)
      rw [(items_eq_lines body).1]
      exact mem_unlabelled_iff.2 ⟨line, hline, hcode, hlabel, rfl⟩

theorem kept_iff_comment :
    let body := "1:  ; preds = %0\n  ret void".toList
    let line := "1:  ; preds = %0".toList
    line ∈ endedLines body ∧ Kept body line := by
  intro body line
  have hline : line ∈ endedLines body := by decide
  refine ⟨hline, (kept_iff hline).2 fun digits rest _ hdigits hcode => .inl ?_⟩
  have hdigit : ∀ c ∈ ['1'], isDigit c = true := List.forall_mem_singleton.2 (by decide)
  have hlabel : digits ++ ':' :: rest = ['1'] ++ ':' :: [] := hcode.symm.trans (by decide)
  obtain ⟨-, rfl⟩ := label_split_unique hdigits hdigit hlabel
  exact nofun

/-- The instruction on the line of a label is lost. -/
theorem not_forall_kept : ¬ ∀ body, ∀ line ∈ endedLines body, Kept body line := by
  intro h
  rcases h "0: ret void".toList "0: ret void".toList (by decide) with
    hcode | hcode | ⟨digits, rest, -, hdigits, hcode, hrest⟩
  · exact absurd hcode (by decide)
  · exact absurd hcode (by decide)
  · have hlabel : digits ++ ':' :: rest = ['0'] ++ ':' :: " ret void".toList :=
      hcode.symm.trans (by decide)
    have hdigit : ∀ c ∈ ['0'], isDigit c = true := List.forall_mem_singleton.2 (by decide)
    obtain ⟨-, rfl⟩ := label_split_unique hdigits hdigit hlabel
    rcases hrest with hrest | hrest
    · exact absurd (hrest 'r' (by decide)) (by decide)
    · exact absurd hrest (by decide)

end IrSurvey.Listing.Body
