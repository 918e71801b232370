import IrSurvey.Listing.Body
import IrSurvey.Proofs.Text.Blank
import IrSurvey.Proofs.Text.Leading
import IrSurvey.Proofs.Text.Line
import IrSurvey.Proofs.Text.Piece

/-!
What a line of a body says does not depend on blanks at its end, and so not on how the lines are
cut. Comment lines say nothing, every other solid line is an instruction or a label, and labels
never stand before the place from which they are counted.
-/
namespace IrSurvey.Listing.Body
open Text
open scoped List

/-- Text without quotes and semicolons stays in front of what is read. -/
theorem uncomment_append_of_plain {p : List Char} (hp : ∀ c ∈ p, c ≠ '"' ∧ c ≠ ';') (quoted : Bool)
    (s : List Char) : uncomment quoted (p ++ s) = p ++ uncomment quoted s := by
  induction p with
  | nil => rfl
  | cons c p ih =>
      obtain ⟨⟨hquote, hsemicolon⟩, hrest⟩ := List.forall_mem_cons.1 hp
      simp only [List.cons_append, uncomment, hquote, hsemicolon, false_and, if_false, ih hrest]

theorem uncomment_append {g : List Char} (hg : AllBlank g) (quoted : Bool) (s : List Char) :
    uncomment quoted (g ++ s) = g ++ uncomment quoted s := by
  refine uncomment_append_of_plain (fun c hc => ⟨?_, ?_⟩) quoted s
  · rintro rfl
    exact absurd (hg _ hc) (by decide)
  · rintro rfl
    exact absurd (hg _ hc) (by decide)

theorem uncomment_blank {g : List Char} (hg : AllBlank g) (quoted : Bool) :
    uncomment quoted g = g := by
  simpa [uncomment] using uncomment_append hg quoted []

/-- Blanks at the end of a line stay there, or a comment takes them off. -/
theorem exists_uncomment_append {g : List Char} (hg : AllBlank g) (quoted : Bool)
    (s : List Char) :
    ∃ t, AllBlank t ∧ uncomment quoted (s ++ g) = uncomment quoted s ++ t := by
  induction s generalizing quoted with
  | nil => exact ⟨g, hg, uncomment_blank hg quoted⟩
  | cons c s ih =>
      simp only [List.cons_append, uncomment]
      split
      next =>
          obtain ⟨t, ht, he⟩ := ih (!quoted)
          exact ⟨t, ht, by rw [he, List.cons_append]⟩
      next =>
          split
          next => exact ⟨[], nofun, rfl⟩
          next =>
              obtain ⟨t, ht, he⟩ := ih quoted
              exact ⟨t, ht, by rw [he, List.cons_append]⟩

theorem uncomment_sublist (quoted : Bool) (s : List Char) : uncomment quoted s <+ s := by
  induction s generalizing quoted with
  | nil => exact List.Sublist.refl _
  | cons c s ih =>
      rw [uncomment]
      split
      next => exact (ih _).cons_cons c
      next =>
          split
          next => exact List.nil_sublist _
          next => exact (ih _).cons_cons c

theorem newline_not_mem_code {line : List Char} (h : '\n' ∉ line) : '\n' ∉ code line := fun hmem =>
  h (((trim_sublist _).trans (uncomment_sublist false line)).subset hmem)

theorem code_append_blank {g : List Char} (hg : AllBlank g) (line : List Char) :
    code (line ++ g) = code line := by
  obtain ⟨t, ht, he⟩ := exists_uncomment_append hg false line
  rw [code, he, trim_append _ ht, code]

theorem code_dropReturn (line : List Char) : code (dropReturn line) = code line := by
  unfold dropReturn
  split
  next h =>
      obtain ⟨l, rfl⟩ := List.getLast?_eq_some_iff.1 h
      have hreturn : AllBlank ['\r'] := by
        intro c hc
        rw [List.mem_singleton.1 hc]
        decide
      rw [List.dropLast_concat, code_append_blank hreturn]
  next => rfl

theorem label?_eq_some_iff {code digits : List Char} :
    label? code = some digits ↔
      digits ≠ [] ∧ (∀ c ∈ digits, isDigit c = true) ∧ ∃ rest, code = digits ++ ':' :: rest := by
  constructor
  · intro h
    unfold label? at h
    split at h
    next rest hrest =>
        split at h
        next => cases h
        next hne =>
            obtain rfl : code.takeWhile isDigit = digits := Option.some.inj h
            exact ⟨hne, fun c hc => List.mem_takeWhile_imp hc, rest,
              eq_takeWhile_append_cons hrest⟩
    next => cases h
  · rintro ⟨hne, hdigits, rest, rfl⟩
    have hcolon : isDigit ':' = false := by decide
    simp only [label?, takeWhile_append_cons hdigits hcolon, dropWhile_append_cons hdigits hcolon,
      if_neg hne]

theorem item?_dropReturn (line : List Char) : item? (dropReturn line) = item? line := by
  simp only [item?, code_dropReturn]

theorem item?_nil : item? [] = none := rfl

/-- A line is a comment if its first solid character starts one. -/
def IsComment (line : List Char) : Prop :=
  (trimStart line).head? = some ';'

instance (line : List Char) : Decidable (IsComment line) :=
  inferInstanceAs (Decidable (_ = _))

theorem item?_of_isComment {line : List Char} (h : IsComment line) : item? line = none := by
  obtain ⟨g, hg, hline⟩ := exists_blank_trimStart line
  obtain ⟨s, hs⟩ : ∃ s, trimStart line = ';' :: s := List.head?_eq_some_iff.1 h
  have hcode : code line = [] := by
    rw [code, hline, hs, uncomment_append hg, trim_eq_nil_iff]
    simpa [uncomment] using hg
  rw [item?, if_pos hcode]

/-- A line without an item can be taken out of a text. -/
theorem items_delete {line : List Char} (hline : '\n' ∉ line) (hitem : item? line = none)
    (s : List Char) {t : List Char} (ht : AtLineEnd t) :
    items (s ++ '\n' :: (line ++ t)) = items (s ++ t) := by
  have hskip : [line].filterMap item? = [] := List.filterMap_cons_none hitem
  rcases atLineEnd_iff.1 ht with rfl | ⟨t, rfl⟩
  · simp only [items, List.append_nil, lines_append_newline, lines_eq_singleton hline,
      List.filterMap_append, hskip]
  · simp only [items, lines_append_newline, lines_eq_singleton hline, List.filterMap_append, hskip,
      List.nil_append]

/-- The items of a text, its lines cut either way. -/
theorem items_eq_filterMap_endedLines (s : List Char) : items s = (endedLines s).filterMap item? := by
  rw [items, List.filterMap_eq_flatMap_toList, List.filterMap_eq_flatMap_toList,
    flatMap_endedLines (by rw [item?_nil]; rfl) fun l => by rw [item?_dropReturn]]

theorem flatMap_items {β : Type} (f : Item → List β) (s : List Char) :
    (items s).flatMap f = (endedLines s).flatMap fun line => (item? line).toList.flatMap f := by
  rw [items_eq_filterMap_endedLines, List.filterMap_eq_flatMap_toList, List.flatMap_assoc]

theorem mem_items_of_mem_instructions {is : List Item} {code : String}
    (h : code ∈ instructions is) : .instruction code ∈ is := by
  obtain ⟨i, hi, hcode⟩ := List.mem_filterMap.1 h
  cases i with
  | label digits => cases hcode
  | instruction c => exact Option.some.inj hcode ▸ hi

theorem mem_items_of_mem_labels {is : List Item} {n : Nat} {l : BlockLabel}
    (h : l ∈ labels n is) : .label l.label ∈ is := by
  induction is generalizing n with
  | nil => cases h
  | cons i is ih =>
      cases i with
      | label digits =>
          rcases List.mem_cons.1 h with rfl | h
          · exact List.mem_cons_self
          · exact List.mem_cons_of_mem _ (ih h)
      | instruction code => exact List.mem_cons_of_mem _ (ih h)

/-! ## Counts -/

/-- The code starts with digits and a colon. -/
def StartsLabel (code : List Char) : Prop :=
  ∃ digits rest, digits ≠ [] ∧ (∀ c ∈ digits, isDigit c = true) ∧ code = digits ++ ':' :: rest

theorem startsLabel_iff {code : List Char} : StartsLabel code ↔ (label? code).isSome := by
  rw [Option.isSome_iff_exists]
  constructor
  · rintro ⟨digits, rest, hne, hdigits, hcode⟩
    exact ⟨digits, label?_eq_some_iff.2 ⟨hne, hdigits, rest, hcode⟩⟩
  · rintro ⟨digits, h⟩
    obtain ⟨hne, hdigits, rest, hcode⟩ := label?_eq_some_iff.1 h
    exact ⟨digits, rest, hne, hdigits, hcode⟩

instance (code : List Char) : Decidable (StartsLabel code) :=
  decidable_of_iff _ startsLabel_iff.symm

/-- How many lines of a body say something and do not start with a label. -/
def instructionLineCount (body : List Char) : Nat :=
  (endedLines body).countP fun line => code line ≠ [] ∧ ¬ StartsLabel (code line)

/-- How many lines of a body start with a label. -/
def labelLineCount (body : List Char) : Nat :=
  (endedLines body).countP fun line => StartsLabel (code line)

def Item.isLabel : Item → Bool
  | .label _ => true
  | .instruction _ => false

theorem length_instructions (is : List Item) :
    (instructions is).length = is.countP (!·.isLabel) := by
  rw [instructions, List.length_filterMap_eq_countP]
  apply List.countP_congr
  intro i _
  cases i <;> simp [Item.isLabel]

theorem length_labels (n : Nat) (is : List Item) :
    (labels n is).length = is.countP (·.isLabel) := by
  induction is generalizing n with
  | nil => rfl
  | cons i is ih =>
      cases i with
      | label digits => rw [labels, List.length_cons, ih, List.countP_cons_of_pos rfl]
      | instruction code => rw [labels, ih, List.countP_cons_of_neg Bool.false_ne_true]

/-- A line makes a label exactly if its code starts with one. -/
theorem isLabel_item? (line : List Char) :
    ((item? line).map (·.isLabel)).getD false = decide (StartsLabel (code line)) := by
  by_cases hcode : code line = []
  · have hno : ¬ StartsLabel (code line) := by
      rintro ⟨digits, rest, -, -, h⟩
      exact absurd (h.symm.trans hcode) (by simp)
    rw [item?, if_pos hcode, decide_eq_false hno]
    rfl
  · rw [item?, if_neg hcode]
    cases hlabel : label? (code line) with
    | none => simp [startsLabel_iff, hlabel, Item.isLabel]
    | some digits => simp [startsLabel_iff, hlabel, Item.isLabel]

theorem isInstruction_item? (line : List Char) :
    ((item? line).map (!·.isLabel)).getD false =
      decide (code line ≠ [] ∧ ¬ StartsLabel (code line)) := by
  by_cases hcode : code line = []
  · rw [item?, if_pos hcode]
    simp [hcode]
  · rw [item?, if_neg hcode]
    cases hlabel : label? (code line) with
    | none => simp [startsLabel_iff, hlabel, Item.isLabel, hcode]
    | some digits => simp [startsLabel_iff, hlabel, Item.isLabel]

theorem length_instructions_items (body : List Char) :
    (instructions (items body)).length = instructionLineCount body := by
  rw [length_instructions, items_eq_filterMap_endedLines, List.countP_filterMap]
  simp only [isInstruction_item?, instructionLineCount]

theorem length_labels_items (n : Nat) (body : List Char) :
    (labels n (items body)).length = labelLineCount body := by
  rw [length_labels, items_eq_filterMap_endedLines, List.countP_filterMap]
  simp only [isLabel_item?, labelLineCount]

theorem le_position_of_mem_labels {before : Nat} {is : List Item} :
    ∀ l ∈ labels before is, before ≤ l.position := by
  induction is generalizing before with
  | nil => exact nofun
  | cons i is ih =>
      cases i with
      | label digits =>
          intro l hl
          rcases List.mem_cons.1 hl with rfl | hl
          · exact Nat.le_refl before
          · exact ih l hl
      | instruction code =>
          intro l hl
          exact Nat.le_of_succ_le (ih l hl)

theorem position_le_of_mem_labels {before : Nat} {is : List Item} :
    ∀ l ∈ labels before is, l.position ≤ before + (instructions is).length := by
  induction is generalizing before with
  | nil => exact nofun
  | cons i is ih =>
      cases i with
      | label digits =>
          intro l hl
          rcases List.mem_cons.1 hl with rfl | hl
          · exact Nat.le_add_right _ _
          · exact ih l hl
      | instruction code =>
          intro l hl
          have hlength : (instructions (.instruction code :: is)).length =
              (instructions is).length + 1 := rfl
          have hl := ih l hl
          omega

end IrSurvey.Listing.Body
