import IrSurvey.Proofs.Instruction.Callee
import IrSurvey.Proofs.Instruction.Parts
import IrSurvey.Proofs.Text.Bracket
import IrSurvey.Proofs.Text.Digit

/-!
Metadata attachments. Each opcode takes what it shows from the front of its operands: the pieces in
front of the first commas, or a symbol with its arguments. Operands that close their brackets and
are as many as the opcode shows are found whatever a comma puts behind them, if that applies no
symbol and closes no argument list.
-/
namespace IrSurvey.Instruction
open Text
open Listing.Parameter (IsLocal)

/-- The letters, digits, underscores and dots of metadata kinds. -/
def isKindChar (c : Char) : Bool :=
  c.isAlphanum || c = '_' || c = '.'

/-- A kind of metadata and the number of a node. -/
structure Attachment where
  kind : List Char
  number : Nat
  kind_ne_nil : kind ≠ [] := by decide
  all_isKindChar : kind.all isKindChar = true := by decide

def Attachment.text (a : Attachment) : List Char :=
  ", !".toList ++ (a.kind ++ (" !".toList ++ (toString a.number).toList))

/-- The operands are there, close what they open, and are two where two are shown. -/
structure Attachable (i : Instruction) : Prop where
  operands_ne_nil : i.operands ≠ []
  bracketDepth_operands : bracketDepth i.operands = 0
  arithmetic : ∀ p ∈ arithmeticSigns, i.opcode = p.1.toList →
    2 ≤ (splitTopLevel i.operands).length
  compare : i.opcode = "icmp".toList → 2 ≤ (splitTopLevel (firstWord i.operands).2).length

/-- A text that a comma starts, without a symbol and without a closing parenthesis. -/
structure Trailing (t : List Char) : Prop where
  head?_eq : t.head? = some ','
  backSolid : BackSolid t
  sigil_not_mem : '@' ∉ t
  closing_not_mem : ')' ∉ t

variable {i : Instruction} {s t u o : List Char}

theorem Trailing.append (ht : Trailing t) (hu : Trailing u) : Trailing (t ++ u) where
  head?_eq := by
    rw [List.head?_append, ht.head?_eq]
    rfl
  backSolid := by
    have hne : u ≠ [] := fun he => nomatch he ▸ hu.head?_eq
    exact (backSolid_append hne).2 hu.backSolid
  sigil_not_mem := List.not_mem_append ht.sigil_not_mem hu.sigil_not_mem
  closing_not_mem := List.not_mem_append ht.closing_not_mem hu.closing_not_mem

theorem isKindChar_of_isDigit {c : Char} (hc : c.isDigit = true) : isKindChar c = true := by
  simp [isKindChar, Char.isAlphanum, hc]

theorem Attachment.trailing_text (a : Attachment) : Trailing a.text := by
  have hchar : ∀ c ∈ a.text, isKindChar c = true ∨ c ∈ ", !".toList := by
    simp only [text, List.forall_mem_append]
    exact ⟨fun c hc => .inr hc, fun c hc => .inl (List.all_eq_true.1 a.all_isKindChar c hc),
      fun c hc => .inr (List.mem_cons_of_mem ',' hc),
      fun c hc => .inl (isKindChar_of_isDigit (isDigit_of_mem_toString hc))⟩
  have hback : BackSolid (toString a.number).toList := by
    refine NoBlank.backSolid fun c hc => Bool.eq_false_iff.2 fun hblank => ?_
    have hnot : c.isDigit = false := eq_false_of_isBlank (by decide +kernel) hblank
    exact Bool.eq_false_iff.1 hnot (isDigit_of_mem_toString hc)
  refine ⟨rfl, ?_, fun h => absurd (hchar _ h) (by decide), fun h => absurd (hchar _ h) (by decide)⟩
  rw [text, ← List.append_assoc, ← List.append_assoc]
  exact (backSolid_append (toList_toString_ne_nil _)).2 hback

theorem trailing_flatMap {as : List Attachment} (hne : as ≠ []) :
    Trailing (as.flatMap Attachment.text) := by
  induction as with
  | nil => exact absurd rfl hne
  | cons a as ih =>
      rw [List.flatMap_cons]
      cases as with
      | nil =>
          rw [List.flatMap_nil, List.append_nil]
          exact a.trailing_text
      | cons b as => exact a.trailing_text.append (ih (List.cons_ne_nil b as))

/-! ## Operands with more behind them -/

theorem callee?_append (ht : Trailing t) (o : List Char) :
    callee? (o ++ t) = (callee? o).map fun q => (q.1, q.2 ++ t) := by
  have hname : ∀ c ∈ t.head?, isSymbolChar c = false := by
    rw [ht.head?_eq]
    rintro c ⟨⟩
    decide
  have hsolid : FrontSolid t := by
    rw [FrontSolid, ht.head?_eq]
    rintro c ⟨⟩
    decide
  have hopen : (trimStart t).head? ≠ some '(' := by
    rw [trimStart_eq_self hsolid, ht.head?_eq]
    decide
  rw [callee?_eq_head?, applications_append hname hopen, applications_eq_nil ht.sigil_not_mem,
    List.append_nil, List.head?_map, ← callee?_eq_head?]

theorem lowerCall_append (ht : Trailing t) (o : List Char) : lowerCall (o ++ t) = lowerCall o := by
  have hcallee := callee?_append ht o
  cases h : callee? o with
  | none =>
      rw [h] at hcallee
      rw [lowerCall, lowerCall, hcallee, h]
      rfl
  | some q =>
      rw [h] at hcallee
      rw [lowerCall_of_callee? hcallee, lowerCall_of_callee? (show _ = some (q.1, q.2) from h),
        splitClose?_append_of_not_mem (by decide) ht.closing_not_mem, Option.elim_map]
      rfl

theorem lowerReturn_append (ht : t.head? = some ',') (hdepth : bracketDepth o = 0)
    (hblank : ¬ AllBlank o) : lowerReturn (o ++ t) = lowerReturn o := by
  have hblank' : ¬ AllBlank (o ++ t) := fun h =>
    hblank fun c hc => h c (List.mem_append_left _ hc)
  have hhead : (splitTopLevel (o ++ t)).head? = (splitTopLevel o).head? := by
    obtain ⟨ps, hps⟩ := splitTopLevel_prefix_append hdepth ht
    rw [← hps, List.head?_append_of_ne_nil _ (mt splitTopLevel_eq_nil_iff.1 hblank)]
  simp only [lowerReturn, hhead, trim_eq_nil_iff, hblank, hblank', false_or]

theorem lowerBinary_append (ht : t.head? = some ',') (hdepth : bracketDepth o = 0)
    (hpieces : 2 ≤ (splitTopLevel o).length) (sign : String) :
    lowerBinary sign (o ++ t) = lowerBinary sign o := by
  obtain ⟨ps, hps⟩ := splitTopLevel_prefix_append hdepth ht
  rw [lowerBinary, lowerBinary, ← hps]
  match splitTopLevel o, hpieces with
  | left :: right :: qs, _ => rfl

theorem lowerCompare_append (ht : t.head? = some ',') (hdepth : bracketDepth o = 0)
    (hpieces : 2 ≤ (splitTopLevel (firstWord o).2).length) :
    lowerCompare (o ++ t) = lowerCompare o := by
  have hrest : (firstWord o).2 ≠ [] := by
    intro he
    rw [he] at hpieces
    exact absurd hpieces (by decide)
  rw [lowerCompare, lowerCompare, firstWord_append hrest]
  cases hsign : comparison? (firstWord o).1 with
  | none => rfl
  | some sign =>
      have hword := (isAtom_of_comparison? hsign).plain
      obtain ⟨g, b, hg, hb, ho⟩ := exists_blank_firstWord o
      rw [ho, bracketDepth_append, bracketDepth_append, bracketDepth_append,
        bracketDepth_of_plain hg.plain, bracketDepth_of_plain hword, bracketDepth_of_plain hb.plain,
        Int.zero_add, Int.zero_add, Int.zero_add] at hdepth
      exact lowerBinary_append ht hdepth hpieces sign

theorem lower_append (h : i.Attachable) (hfront : FrontSolid i.operands) (ht : Trailing t) :
    lower { i with operands := i.operands ++ t } = lower i := by
  have hdepth := h.bracketDepth_operands
  rw [lower, lower]
  cases hop : Opcode.ofWord? i.opcode with
  | none => rfl
  | some op =>
      cases op with
      | call => exact lowerCall_append ht i.operands
      | ret =>
          refine lowerReturn_append ht.head?_eq hdepth fun hblank => ?_
          exact h.operands_ne_nil (eq_nil_of_allBlank_of_frontSolid hblank hfront)
      | arithmetic sign =>
          have hpieces := h.arithmetic _ (Opcode.ofWord?_eq_arithmetic_iff.1 hop)
            String.toList_ofList.symm
          exact lowerBinary_append ht.head?_eq hdepth hpieces sign
      | compare =>
          exact lowerCompare_append ht.head?_eq hdepth (h.compare (Opcode.ofWord?_eq_compare_iff.1 hop))
      | branch => rfl
      | memory => rfl
      | alloca => rfl

/-- Attachments behind a line change nothing of what is shown for it. -/
theorem lowerLine_attachments (hs : BackSolid s) (h : (ofLine s).Attachable)
    (as : List Attachment) :
    lowerLine (String.ofList (s ++ as.flatMap Attachment.text)) = lowerLine (String.ofList s) := by
  by_cases hne : as = []
  · rw [hne, List.flatMap_nil, List.append_nil]
  · have ht := trailing_flatMap hne
    rw [lowerLine, lowerLine, String.toList_ofList, String.toList_ofList,
      ofLine_append hs h.operands_ne_nil ht.head?_eq ht.backSolid]
    exact lower_append h (frontSolid_operands_ofCode _) ht

/-- Two attachments behind a comparison of aggregates that a local value receives. -/
theorem lowerLine_attachments_compare :
    let s := "%3 = icmp ult <2 x { i8, i8 }> %a, %b".toList
    (BackSolid s ∧ (ofLine s).Attachable) ∧
      lowerLine "%3 = icmp ult <2 x { i8, i8 }> %a, %b, !dbg !7, !llvm.access_group !12" =
        lowerLine "%3 = icmp ult <2 x { i8, i8 }> %a, %b" := by
  intro s
  have hname : ∀ n ∈ some "3".toList, IsLocal n := by decide
  have hop : Opcode.ofWord? "icmp".toList = some .compare := by decide
  have hline := ofLine_codeLine hname hop "ult <2 x { i8, i8 }> %a, %b".toList
  have hs : BackSolid s := by
    rintro c ⟨⟩
    decide
  have h : (ofLine s).Attachable := by
    rw [show ofLine s = _ from hline]
    exact ⟨by decide, by decide, by decide, by decide⟩
  let as : List Attachment :=
    [{ kind := "dbg".toList, number := 7 }, { kind := "llvm.access_group".toList, number := 12 }]
  exact ⟨⟨hs, h⟩, lowerLine_attachments hs h as⟩

end IrSurvey.Instruction
