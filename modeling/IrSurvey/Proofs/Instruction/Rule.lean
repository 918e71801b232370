import IrSurvey.Proofs.Instruction.Callee
import IrSurvey.Proofs.Instruction.Parts

/-!
The classification of instructions as an ordered table of rules, of which the first that applies
decides. No two rules of the table are for the same opcode, so at most one applies, and in every
order the table shows what the opcode shows.
-/
namespace IrSurvey.Instruction
open Text

/-- The opcodes that a rule is for, and what it shows for an instruction with one of them; `none`
where the operands do not suit it. -/
structure Rule where
  opcodes : List String
  shown? : Instruction → Option Lowered

/-- What a rule shows, `none` where it does not apply. -/
def Rule.lower? (r : Rule) (i : Instruction) : Option Lowered :=
  if String.ofList i.opcode ∈ r.opcodes then r.shown? i else none

/-- What the first rule that applies shows. -/
def classify (table : List Rule) (i : Instruction) : Lowered :=
  (table.findSome? fun r => r.lower? i).getD .elided

/-- Two operands around a sign. -/
def pair? (sign : String) (operands : List Char) : Option Lowered :=
  match splitTopLevel operands with
  | left :: right :: _ =>
    some (.comment (String.ofList (Operand.value left) ++ " " ++ sign ++ " " ++
      String.ofList (Operand.value right)))
  | _ => none

def callRule : Rule where
  opcodes := ["call"]
  shown? i := (callee? i.operands).map fun q =>
    if isIntrinsic q.1 then .elided
    else .statement (String.ofList
      (q.1 ++ '(' :: (splitClose? '(' ')' q.2).elim [] (Operand.arguments ·.1) ++ ");".toList))

def returnRule : Rule where
  opcodes := ["ret"]
  shown? i := some (lowerReturn i.operands)

def arithmeticRule : Rule where
  opcodes := arithmeticSigns.map (·.1)
  shown? i := (arithmeticSigns.lookup (String.ofList i.opcode)).bind (pair? · i.operands)

def comparisonRule : Rule where
  opcodes := ["icmp"]
  shown? i := (comparison? (firstWord i.operands).1).bind (pair? · (firstWord i.operands).2)

/-- A rule that shows the same for all operands. -/
def remarkRule (opcodes : List String) (text : String) : Rule where
  opcodes := opcodes
  shown? _ := some (.comment text)

/-- The rules in their order. -/
def rules : List Rule :=
  [callRule, returnRule, arithmeticRule, comparisonRule,
    remarkRule ["br"] "branch instruction",
    remarkRule ["load", "store"] "memory operation",
    remarkRule ["alloca"] "local variable"]

/-- No two rules of a table are for the same opcode. -/
def Exclusive (table : List Rule) : Prop :=
  table.Pairwise fun r r' => r.opcodes.Disjoint r'.opcodes

variable {table : List Rule} {r : Rule} {i : Instruction} {l : Lowered} {sign : String}
  {operands : List Char}

/-! ## At most one rule applies -/

theorem opcode_mem_of_lower? (h : r.lower? i = some l) : String.ofList i.opcode ∈ r.opcodes := by
  by_contra hopcode
  rw [Rule.lower?, if_neg hopcode] at h
  cases h

theorem exclusive_rules : Exclusive rules := by
  have hdisjoint : rules.Pairwise fun r r' => ∀ w ∈ r.opcodes, w ∉ r'.opcodes := by decide
  exact hdisjoint.imp fun h => List.disjoint_left.2 fun {w} => h w

/-- The first rule that applies is the only one. -/
theorem filterMap_lower?_eq (h : Exclusive table) (i : Instruction) :
    table.filterMap (·.lower? i) = (table.findSome? (·.lower? i)).toList := by
  induction table with
  | nil => rfl
  | cons r table ih =>
      obtain ⟨hr, htable⟩ := List.pairwise_cons.1 h
      rw [List.filterMap_cons, List.findSome?_cons]
      cases happly : r.lower? i with
      | none => exact ih htable
      | some l =>
          have hothers : table.filterMap (·.lower? i) = [] := by
            rw [List.filterMap_eq_nil_iff]
            intro r' hr'
            cases happly' : r'.lower? i with
            | none => rfl
            | some l' =>
                exact absurd (opcode_mem_of_lower? happly')
                  (hr r' hr' (opcode_mem_of_lower? happly))
          exact congrArg (l :: ·) hothers

theorem countP_isSome_lower?_le (h : Exclusive table) (i : Instruction) :
    table.countP (fun r => (r.lower? i).isSome) ≤ 1 := by
  rw [← List.length_filterMap_eq_countP, filterMap_lower?_eq h]
  cases table.findSome? (·.lower? i) with
  | none => exact Nat.zero_le 1
  | some l => exact Nat.le_refl 1

/-- The order of rules that exclude each other has no part in what they show. -/
theorem classify_perm {table' : List Rule} (hperm : table'.Perm table) (h : Exclusive table)
    (i : Instruction) : classify table' i = classify table i := by
  have happlied := hperm.filterMap (·.lower? i)
  rw [filterMap_lower?_eq h] at happlied
  rw [classify, classify, ← List.head?_filterMap]
  cases hshown : table.findSome? (·.lower? i) with
  | none =>
      rw [hshown] at happlied
      rw [happlied.eq_nil]
      rfl
  | some l =>
      rw [hshown] at happlied
      rw [List.perm_singleton.1 happlied]
      rfl

/-! ## The rule for an opcode -/

/-- The rule that is for an opcode decides alone. -/
theorem findSome?_lower?_of_mem (h : Exclusive table) (hr : r ∈ table)
    (hop : String.ofList i.opcode ∈ r.opcodes) :
    table.findSome? (·.lower? i) = r.shown? i := by
  have hother : ∀ {r' : Rule}, String.ofList i.opcode ∉ r'.opcodes → r'.lower? i = none :=
    fun hnot => if_neg hnot
  induction table with
  | nil => cases hr
  | cons r' table ih =>
      obtain ⟨hr', htable⟩ := List.pairwise_cons.1 h
      rw [List.findSome?_cons]
      rcases List.mem_cons.1 hr with rfl | hr
      · have happly : r.lower? i = r.shown? i := if_pos hop
        have hrest : table.findSome? (·.lower? i) = none :=
          List.findSome?_eq_none_iff.2 fun r' hmem => hother (hr' r' hmem hop)
        rw [happly, hrest]
        cases r.shown? i <;> rfl
      · rw [hother fun hmem => hr' r hr hmem hop]
        exact ih htable hr

theorem classify_of_mem (h : Exclusive table) (hr : r ∈ table)
    (hop : String.ofList i.opcode ∈ r.opcodes) :
    classify table i = (r.shown? i).getD .elided := by
  rw [classify, findSome?_lower?_of_mem h hr hop]

theorem getD_pair? (sign : String) (operands : List Char) :
    (pair? sign operands).getD .elided = lowerBinary sign operands := by
  rw [pair?, lowerBinary]
  generalize splitTopLevel operands = ps
  rcases ps with _ | ⟨left, _ | ⟨right, ps⟩⟩ <;> rfl

theorem getD_shown?_callRule (i : Instruction) :
    (callRule.shown? i).getD .elided = lowerCall i.operands := by
  simp only [callRule]
  cases h : callee? i.operands with
  | none =>
      rw [lowerCall, h]
      rfl
  | some q =>
      rw [lowerCall_of_callee? (show _ = some (q.1, q.2) from h)]
      rfl

theorem getD_shown?_arithmeticRule (h : (String.ofList i.opcode, sign) ∈ arithmeticSigns) :
    (arithmeticRule.shown? i).getD .elided = lowerBinary sign i.operands := by
  have hlookup : ∀ p ∈ arithmeticSigns, arithmeticSigns.lookup p.1 = some p.2 := by decide
  simp only [arithmeticRule]
  rw [hlookup _ h, Option.bind_some, getD_pair?]

theorem getD_shown?_comparisonRule (i : Instruction) :
    (comparisonRule.shown? i).getD .elided = lowerCompare i.operands := by
  simp only [comparisonRule, lowerCompare]
  cases comparison? (firstWord i.operands).1 with
  | none => rfl
  | some sign => exact getD_pair? sign _

/-- The table shows what the opcode shows. -/
theorem classify_rules (i : Instruction) : classify rules i = lower i := by
  have hdecides : ∀ {r : Rule}, r ∈ rules → String.ofList i.opcode ∈ r.opcodes →
      classify rules i = (r.shown? i).getD .elided := classify_of_mem exclusive_rules
  have hremark : ∀ (words : List String) {text : String}, remarkRule words text ∈ rules →
      String.ofList i.opcode ∈ words → classify rules i = .comment text := by
    intro words text hr hop
    exact hdecides hr hop
  rw [lower]
  cases hop : Opcode.ofWord? i.opcode with
  | none =>
      have hknown : ∀ r ∈ rules, ∀ w ∈ r.opcodes, ∃ p ∈ opcodeWords, p.1 = w := by decide
      have hnone : rules.findSome? (·.lower? i) = none := by
        refine List.findSome?_eq_none_iff.2 fun r hr => if_neg fun hmem => ?_
        obtain ⟨p, hp, hword⟩ := hknown r hr _ hmem
        have hshown : (String.ofList i.opcode, p.2) ∈ opcodeWords := by rwa [← hword]
        rw [Opcode.ofWord?_eq_some_iff.2 hshown] at hop
        cases hop
      rw [classify, hnone]
      rfl
  | some op =>
      have hword := Opcode.ofWord?_eq_some_iff.1 hop
      cases op with
      | call =>
          rw [hdecides (r := callRule) (by simp [rules])
            (by simpa [opcodeWords, callRule] using hword)]
          exact getD_shown?_callRule i
      | ret =>
          rw [hdecides (r := returnRule) (by simp [rules])
            (by simpa [opcodeWords, returnRule] using hword)]
          rfl
      | arithmetic sign =>
          have hsign := Opcode.ofWord?_eq_arithmetic_iff.1 hop
          rw [hdecides (r := arithmeticRule) (by simp [rules])
            (List.mem_map_of_mem (f := (·.1)) hsign)]
          exact getD_shown?_arithmeticRule hsign
      | compare =>
          rw [hdecides (r := comparisonRule) (by simp [rules])
            (by simpa [opcodeWords, comparisonRule] using hword)]
          exact getD_shown?_comparisonRule i
      | branch =>
          exact hremark ["br"] (by simp [rules]) (by simpa [opcodeWords] using hword)
      | memory =>
          exact hremark ["load", "store"] (by simp [rules]) (by simpa [opcodeWords] using hword)
      | alloca =>
          exact hremark ["alloca"] (by simp [rules]) (by simpa [opcodeWords] using hword)

end IrSurvey.Instruction
