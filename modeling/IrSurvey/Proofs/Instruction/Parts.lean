import IrSurvey.Instruction.Lowering
import IrSurvey.Proofs.Instruction.Operand
import IrSurvey.Proofs.Listing.Parameter

/-!
The parts of a line. A word that leads code is the opcode of every line that starts with it, also
behind an assignment to a local value, and the trimmed rest of the line is the operands. What
follows the operands of a line becomes part of them.
-/
namespace IrSurvey
open Text
open Listing.Parameter (IsLocal isLocalChar_of_isBlank)

/-- The opcodes that are shown, each with its word. -/
def opcodeWords : List (String × Opcode) :=
  [("call", .call), ("ret", .ret), ("add", .arithmetic "+"), ("sub", .arithmetic "-"),
    ("mul", .arithmetic "*"), ("udiv", .arithmetic "/"), ("sdiv", .arithmetic "/"),
    ("icmp", .compare), ("br", .branch), ("load", .memory), ("store", .memory), ("alloca", .alloca)]

/-- The arithmetic opcodes, each with its sign. -/
def arithmeticSigns : List (String × String) :=
  [("add", "+"), ("sub", "-"), ("mul", "*"), ("udiv", "/"), ("sdiv", "/")]

/-- The predicates of the comparisons that are shown, each with its sign. -/
def comparisonSigns : List (String × String) :=
  [("eq", "=="), ("ne", "!="), ("ult", "<"), ("ugt", ">")]

variable {s t w g name gap line : List Char} {c : Char} {op : Opcode} {sign : String}

theorem Opcode.ofWord?_eq_some_iff :
    Opcode.ofWord? w = some op ↔ (String.ofList w, op) ∈ opcodeWords := by
  unfold Opcode.ofWord?
  generalize String.ofList w = word
  split <;> simp_all [opcodeWords, eq_comm]

theorem Opcode.ofWord?_eq_arithmetic_iff :
    Opcode.ofWord? w = some (.arithmetic sign) ↔ (String.ofList w, sign) ∈ arithmeticSigns := by
  rw [Opcode.ofWord?_eq_some_iff]
  simp [opcodeWords, arithmeticSigns]

theorem Opcode.ofWord?_eq_compare_iff :
    Opcode.ofWord? w = some .compare ↔ w = "icmp".toList := by
  rw [Opcode.ofWord?_eq_some_iff, ← String.ofList_inj, String.ofList_toList]
  simp [opcodeWords]

theorem comparison?_eq_some_iff :
    comparison? w = some sign ↔ (String.ofList w, sign) ∈ comparisonSigns := by
  unfold comparison?
  generalize String.ofList w = word
  split <;> simp_all [comparisonSigns, eq_comm]

/-- The predicates are words of letters. -/
theorem isAtom_of_comparison? (h : comparison? w = some sign) : Operand.IsAtom w := by
  have hwords : ∀ p ∈ comparisonSigns, Operand.IsAtom p.1.toList := by decide
  have hw := hwords _ (comparison?_eq_some_iff.1 h)
  rwa [String.toList_ofList] at hw

namespace Instruction

/-- A word that is the opcode of every line that starts with it. -/
structure LeadsCode (w : List Char) : Prop where
  ne_nil : w ≠ []
  noBlank : NoBlank w
  head?_ne : w.head? ≠ some '%'
  not_marker : isCallMarker w = false

/-- Code behind the name that receives its result, if there is one. -/
def assigned (name : Option (List Char)) (code : List Char) : List Char :=
  match name with
  | some n => '%' :: (n ++ " = ".toList ++ code)
  | none => code

/-- A line of code: an opcode and operands, behind the name that receives the result if there is
one. -/
def codeLine (name : Option (List Char)) (opcode : String) (operands : List Char) : String :=
  String.ofList (assigned name (opcode.toList ++ ' ' :: operands))

theorem leadsCode_of_ofWord? (h : Opcode.ofWord? w = some op) : LeadsCode w := by
  have hwords : ∀ p ∈ opcodeWords, p.1.toList ≠ [] ∧ NoBlank p.1.toList ∧
      p.1.toList.head? ≠ some '%' ∧ isCallMarker p.1.toList = false := by decide
  have hw := hwords _ (Opcode.ofWord?_eq_some_iff.1 h)
  rw [String.toList_ofList] at hw
  exact ⟨hw.1, hw.2.1, hw.2.2.1, hw.2.2.2⟩

/-! ## The name in front -/

theorem stripTemporary_eq_trim (h : (trim s).head? ≠ some '%') : stripTemporary s = trim s := by
  unfold stripTemporary
  split
  next he => exact absurd (congrArg List.head? he) h
  next => rfl

theorem delimits_sign : Delimits isLocalChar isBlank '=' where
  isName_of_isGap := isLocalChar_of_isBlank
  isName_sign := by decide
  isGap_sign := by decide

/-- Behind a percent sign, a local name and an equals sign are left out. -/
theorem stripTemporary_percent (hs : trim s = '%' :: t) :
    stripTemporary s =
      ((named? isLocalChar isBlank '=' t).map fun q => trimStart q.2).getD (trim s) := by
  simp only [stripTemporary, hs, named?, trimStart]
  split
  next r hr =>
      rw [hr]
      by_cases hne : t.takeWhile isLocalChar = [] <;> simp [hne]
  next hother =>
      split
      next c r hr =>
          rw [if_neg fun h => hother r (by rw [hr, h.1])]
          rfl
      next => rfl

theorem stripTemporary_assignment (hg : AllBlank g) (hname : IsLocal name) (hgap : AllBlank gap)
    (s : List Char) : stripTemporary (g ++ '%' :: (name ++ (gap ++ '=' :: s))) = trim s := by
  have htrim : trim (g ++ '%' :: (name ++ (gap ++ '=' :: s))) =
      '%' :: (name ++ (gap ++ '=' :: trimEnd s)) := by
    have hsolid : FrontSolid ('%' :: (name ++ (gap ++ '=' :: s))) := by
      rintro c ⟨⟩
      decide
    have happ : '%' :: (name ++ (gap ++ '=' :: s)) = ('%' :: (name ++ gap)) ++ '=' :: s := by simp
    rw [trim, trimStart_append hg, trimStart_eq_self hsolid, happ, trimEnd_append_cons (by decide)]
    simp
  have hread : named? isLocalChar isBlank '=' (name ++ (gap ++ '=' :: trimEnd s)) =
      some (name, trimEnd s) := (named?_eq_some_iff delimits_sign).2 ⟨hname, gap, hgap, rfl⟩
  rw [stripTemporary_percent htrim, hread]
  exact trimStart_trimEnd s

/-! ## Opcode and operands -/

theorem ofCode_eq (h : isCallMarker (firstWord s).1 = false) :
    ofCode s = { opcode := (firstWord s).1, operands := (firstWord s).2 } := by
  rw [ofCode, dif_neg (by simp [h])]

theorem ofCode_marker (h : isCallMarker (firstWord s).1 = true) :
    ofCode s = ofCode (firstWord s).2 := by
  rw [ofCode, dif_pos h]

theorem LeadsCode.ofCode_trim (hw : LeadsCode w) (hc : isBlank c = true) (s : List Char) :
    ofCode (trim (w ++ c :: s)) = { opcode := w, operands := trim s } := by
  have hword : firstWord (trim (w ++ c :: s)) = (w, trim s) := by
    rw [firstWord_trim, firstWord_append_cons hw.ne_nil hw.noBlank hc]
    rfl
  rw [ofCode_eq (by rw [hword]; exact hw.not_marker), hword]

theorem LeadsCode.ofLine_assigned (hw : LeadsCode w) {name : Option (List Char)}
    (hname : ∀ n ∈ name, IsLocal n) (hc : isBlank c = true) (s : List Char) :
    ofLine (assigned name (w ++ c :: s)) = { opcode := w, operands := trim s } := by
  rw [← hw.ofCode_trim hc s, ofLine]
  congr 1
  cases name with
  | none =>
      have hsolid : FrontSolid (w ++ c :: s) := (frontSolid_append hw.ne_nil).2 hw.noBlank.frontSolid
      refine stripTemporary_eq_trim ?_
      rw [assigned, head?_trim hsolid, List.head?_append_of_ne_nil _ hw.ne_nil]
      exact hw.head?_ne
  | some n =>
      have happ : assigned (some n) (w ++ c :: s) =
          [] ++ '%' :: (n ++ ([' '] ++ '=' :: ([' '] ++ (w ++ c :: s)))) := by
        simp [assigned]
      have hfront : AllBlank [] := fun _ hc => nomatch hc
      rw [happ, stripTemporary_assignment hfront (hname n rfl) allBlank_space,
        trim_blank_append allBlank_space]

theorem ofLine_codeLine {name : Option (List Char)} (hname : ∀ n ∈ name, IsLocal n)
    {opcode : String} (hop : Opcode.ofWord? opcode.toList = some op)
    (operands : List Char) :
    ofLine (codeLine name opcode operands).toList =
      { opcode := opcode.toList, operands := trim operands } := by
  rw [codeLine, String.toList_ofList,
    (leadsCode_of_ofWord? hop).ofLine_assigned hname (by decide)]

theorem lowerLine_codeLine {name : Option (List Char)} (hname : ∀ n ∈ name, IsLocal n)
    {opcode : String} (hop : Opcode.ofWord? opcode.toList = some op)
    (operands : List Char) :
    lowerLine (codeLine name opcode operands) =
      lower { opcode := opcode.toList, operands := trim operands } := by
  rw [lowerLine, ofLine_codeLine hname hop]

/-! ## What follows the operands -/

theorem operands_ofCode_nil : (ofCode []).operands = [] := by
  rw [ofCode_eq (by decide)]
  rfl

theorem frontSolid_operands_ofCode (s : List Char) : FrontSolid (ofCode s).operands := by
  fun_induction ofCode s with
  | case1 s hmarker ih => exact ih
  | case2 s hmarker => exact frontSolid_trimStart _

theorem ofCode_append (h : (ofCode s).operands ≠ []) (t : List Char) :
    ofCode (s ++ t) = { ofCode s with operands := (ofCode s).operands ++ t } := by
  fun_induction ofCode s with
  | case1 s hmarker ih =>
      have hrest : (firstWord s).2 ≠ [] := by
        intro he
        rw [he, operands_ofCode_nil] at h
        exact h rfl
      have hword := firstWord_append hrest t
      rw [ofCode_marker (by rw [hword]; exact hmarker), hword]
      exact ih h
  | case2 s hmarker =>
      have hword := firstWord_append h t
      rw [ofCode_eq (by rw [hword]; exact Bool.eq_false_iff.2 hmarker), hword]

/-- What a comma starts behind the operands of a line leaves the name in front alone. -/
theorem stripTemporary_append (hs : BackSolid s) (h : (ofLine s).operands ≠ [])
    (ht : t.head? = some ',') (hback : BackSolid t) :
    stripTemporary (s ++ t) = stripTemporary s ++ t := by
  have hcode : (ofCode (stripTemporary s)).operands ≠ [] := h
  have hne : trim s ≠ [] := by
    intro he
    rw [stripTemporary_eq_trim (by rw [he]; decide), he, operands_ofCode_nil] at hcode
    exact hcode rfl
  have htrim : trim (s ++ t) = trim s ++ t :=
    trim_append_of_backSolid hs hne hback fun he => nomatch he ▸ ht
  by_cases hhead : (trim s).head? = some '%'
  · obtain ⟨v, hv⟩ : ∃ v, trim s = '%' :: v := List.head?_eq_some_iff.1 hhead
    have hread : named? isLocalChar isBlank '=' (v ++ t) =
        (named? isLocalChar isBlank '=' v).map fun q => (q.1, q.2 ++ t) := by
      obtain ⟨r, rfl⟩ := List.head?_eq_some_iff.1 ht
      exact named?_append (by rintro c ⟨⟩; decide) (show some ',' ≠ some '=' by decide)
    have hv' : trim (s ++ t) = '%' :: (v ++ t) := by rw [htrim, hv, List.cons_append]
    rw [stripTemporary_percent hv] at hcode ⊢
    rw [stripTemporary_percent hv', hread, htrim]
    cases hq : named? isLocalChar isBlank '=' v with
    | none => rfl
    | some q =>
        refine trimStart_append_of_ne_nil ?_ _
        intro he
        rw [hq, Option.map_some, he, Option.getD_some, operands_ofCode_nil] at hcode
        exact hcode rfl
  · have hhead' : (trim (s ++ t)).head? ≠ some '%' := by
      rwa [htrim, List.head?_append_of_ne_nil _ hne]
    rw [stripTemporary_eq_trim hhead', stripTemporary_eq_trim hhead, htrim]

theorem ofLine_append (hs : BackSolid s) (h : (ofLine s).operands ≠ []) (ht : t.head? = some ',')
    (hback : BackSolid t) :
    ofLine (s ++ t) = { ofLine s with operands := (ofLine s).operands ++ t } := by
  rw [ofLine, stripTemporary_append hs h ht hback]
  exact ofCode_append h _

/-! ## What stands in front of the operands -/

/-- The characters of names, of the words of a call site, and of an assignment. -/
def isLead (c : Char) : Bool :=
  isLocalChar c || isBlank c || c = '%' || c = '='

theorem isLead_of_isBlank (hc : isBlank c = true) : isLead c = true := by
  simp [isLead, hc]

theorem isLead_of_isLocalChar (hc : isLocalChar c = true) : isLead c = true := by
  simp [isLead, hc]

theorem isLead_of_isCallMarker (hw : isCallMarker w = true) : ∀ c ∈ w, isLead c = true := by
  simp only [isCallMarker, Bool.or_eq_true, decide_eq_true_eq] at hw
  rcases hw with (rfl | rfl) | rfl <;> exact List.all_eq_true.1 (by decide)

theorem exists_lead_stripTemporary (s : List Char) :
    ∃ p, (∀ c ∈ p, isLead c = true) ∧ trim s = p ++ stripTemporary s := by
  by_cases hhead : (trim s).head? = some '%'
  · obtain ⟨v, hv⟩ : ∃ v, trim s = '%' :: v := List.head?_eq_some_iff.1 hhead
    rw [stripTemporary_percent hv]
    cases hq : named? isLocalChar isBlank '=' v with
    | none => exact ⟨[], nofun, rfl⟩
    | some q =>
        obtain ⟨hname, g, hg, rfl⟩ :=
          (named?_eq_some_iff delimits_sign).1 (show _ = some (q.1, q.2) from hq)
        obtain ⟨b, hb, hrest⟩ := exists_blank_trimStart q.2
        refine ⟨'%' :: (q.1 ++ (g ++ '=' :: b)), ?_, ?_⟩
        · simp only [List.forall_mem_cons, List.forall_mem_append]
          exact ⟨by decide, fun c hc => isLead_of_isLocalChar (hname.2 c hc),
            fun c hc => isLead_of_isBlank (hg c hc), by decide,
            fun c hc => isLead_of_isBlank (hb c hc)⟩
        · rw [hv]
          conv_lhs => rw [hrest]
          simp
  · exact ⟨[], nofun, (stripTemporary_eq_trim hhead).symm⟩

theorem exists_lead_firstWord (h : ∀ c ∈ (firstWord s).1, isLead c = true) :
    ∃ p, (∀ c ∈ p, isLead c = true) ∧ s = p ++ (firstWord s).2 := by
  obtain ⟨g, b, hg, hb, hs⟩ := exists_blank_firstWord s
  refine ⟨g ++ ((firstWord s).1 ++ b), ?_, ?_⟩
  · simp only [List.forall_mem_append]
    exact ⟨fun c hc => isLead_of_isBlank (hg c hc), h, fun c hc => isLead_of_isBlank (hb c hc)⟩
  · conv_lhs => rw [hs]
    simp only [List.append_assoc]

theorem exists_lead_ofCode (h : ∀ c ∈ (ofCode s).opcode, isLead c = true) :
    ∃ p, (∀ c ∈ p, isLead c = true) ∧ s = p ++ (ofCode s).operands := by
  fun_induction ofCode s with
  | case1 s hmarker ih =>
      obtain ⟨p, hp, hs⟩ := exists_lead_firstWord (isLead_of_isCallMarker hmarker)
      obtain ⟨q, hq, hrest⟩ := ih h
      refine ⟨p ++ q, List.forall_mem_append.2 ⟨hp, hq⟩, ?_⟩
      conv_lhs => rw [hs, hrest]
      exact (List.append_assoc _ _ _).symm
  | case2 s hmarker => exact exists_lead_firstWord h

/-- A line is its operands behind an assignment and words of its own, with blanks around. -/
theorem exists_lead_ofLine (h : ∀ c ∈ (ofLine line).opcode, isLead c = true) :
    ∃ p b, (∀ c ∈ p, isLead c = true) ∧ AllBlank b ∧ line = p ++ ((ofLine line).operands ++ b) := by
  obtain ⟨a, b, ha, hb, hline⟩ := exists_blank_trim line
  obtain ⟨p, hp, htrim⟩ := exists_lead_stripTemporary line
  obtain ⟨q, hq, hcode⟩ := exists_lead_ofCode h
  refine ⟨a ++ (p ++ q), b, ?_, hb, ?_⟩
  · simp only [List.forall_mem_append]
    exact ⟨fun c hc => isLead_of_isBlank (ha c hc), hp, hq⟩
  · conv_lhs => rw [hline, htrim, hcode]
    simp only [List.append_assoc, ofLine]

end Instruction
end IrSurvey
