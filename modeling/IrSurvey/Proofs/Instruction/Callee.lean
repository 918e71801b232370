import IrSurvey.Instruction.Lowering
import IrSurvey.Proofs.Text.Symbol

/-!
The callee of a call. It is the first symbol that the text of the operands applies. A character that
can stand neither in a name nor in front of a parenthesis cuts a text in two that are searched on
their own.
-/
namespace IrSurvey.Instruction
open Text

/-- All symbols that a text applies, each with the text behind its parenthesis. -/
def applications : List Char → List (List Char × List Char)
  | [] => []
  | c :: s => (if c = '@' then applied? s else none).toList ++ applications s

/-- Behind `before`, the text applies a symbol: the sigil, the name, a gap and a parenthesis. -/
def AppliesAt (s before name : List Char) : Prop :=
  IsSymbol name ∧ ∃ gap rest, AllBlank gap ∧ s = before ++ '@' :: (name ++ (gap ++ '(' :: rest))

/-- The text applies the symbol in front of all others. -/
def AppliesFirst (s name : List Char) : Prop :=
  ∃ before, AppliesAt s before name ∧
    ∀ before' name', AppliesAt s before' name' → before <+: before'

variable {s t name name' before : List Char} {c : Char}

theorem callee?_eq_head? (s : List Char) : callee? s = (applications s).head? := by
  induction s with
  | nil => rfl
  | cons c s ih =>
      rw [callee?, applications, List.head?_append, ih]
      cases if c = '@' then applied? s else none <;> rfl

theorem applications_cons_of_ne {c : Char} (hc : c ≠ '@') (s : List Char) :
    applications (c :: s) = applications s := by
  rw [applications, if_neg hc]
  rfl

theorem applications_append_of_not_mem (h : '@' ∉ s) (t : List Char) :
    applications (s ++ t) = applications t := by
  induction s with
  | nil => rfl
  | cons c s ih =>
      have hc : '@' ≠ c := List.ne_of_not_mem_cons h
      rw [List.cons_append, applications_cons_of_ne hc.symm,
        ih (List.not_mem_of_not_mem_cons h)]

theorem applications_eq_nil (h : '@' ∉ s) : applications s = [] := by
  rw [← List.append_nil s, applications_append_of_not_mem h]
  rfl

theorem applications_append (hname : ∀ c ∈ t.head?, isSymbolChar c = false)
    (hopen : (trimStart t).head? ≠ some '(') (s : List Char) :
    applications (s ++ t) =
      (applications s).map (fun q => (q.1, q.2 ++ t)) ++ applications t := by
  induction s with
  | nil => rfl
  | cons c s ih =>
      rw [List.cons_append, applications, applications, ih, applied?_append hname hopen,
        List.map_append, List.append_assoc]
      congr 1
      split
      next => cases applied? s <;> rfl
      next => rfl

theorem applications_trimStart (s : List Char) : applications (trimStart s) = applications s := by
  obtain ⟨g, hg, hs⟩ := exists_blank_trimStart s
  have hsigil : '@' ∉ g := fun hmem => absurd (hg _ hmem) (by decide)
  conv_rhs => rw [hs, applications_append_of_not_mem hsigil]

theorem isIntrinsic_iff {name : List Char} : isIntrinsic name = true ↔ "llvm.".toList <+: name :=
  List.isPrefixOf_iff_prefix

/-- A call shows the symbol that is applied first, unless it is an intrinsic. -/
theorem lowerCall_of_callee? {name : List Char} (h : callee? s = some (name, t)) :
    lowerCall s =
      if isIntrinsic name then .elided
      else .statement (String.ofList
        (name ++ '(' :: (splitClose? '(' ')' t).elim [] (Operand.arguments ·.1) ++ ");".toList)) := by
  rw [lowerCall, h]

/-! ## The first application -/

theorem appliesAt_nil_iff :
    AppliesAt (c :: s) [] name ↔ c = '@' ∧ ∃ rest, applied? s = some (name, rest) := by
  constructor
  · rintro ⟨hname, gap, rest, hgap, hs⟩
    obtain ⟨rfl, rfl⟩ := List.cons.inj hs
    refine ⟨rfl, rest, ?_⟩
    rw [← List.append_assoc]
    exact applied?_of_gap hname hgap
  · rintro ⟨rfl, rest, hread⟩
    obtain ⟨gap, hgap, hname, rfl⟩ := applied?_sound hread
    exact ⟨hname, gap, rest, hgap, by rw [List.append_assoc]; rfl⟩

theorem appliesAt_cons_iff {a : Char} :
    AppliesAt (c :: s) (a :: before) name ↔ c = a ∧ AppliesAt s before name := by
  constructor
  · rintro ⟨hname, gap, rest, hgap, hs⟩
    obtain ⟨hc, hs⟩ := List.cons.inj hs
    exact ⟨hc, hname, gap, rest, hgap, hs⟩
  · rintro ⟨rfl, hname, gap, rest, hgap, rfl⟩
    exact ⟨hname, gap, rest, hgap, rfl⟩

theorem not_appliesAt_empty : ¬ AppliesAt [] before name := by
  rintro ⟨-, gap, rest, -, hs⟩
  exact List.append_ne_nil_of_right_ne_nil before (List.cons_ne_nil _ _) hs.symm

theorem appliesFirst_of_callee? (h : callee? s = some (name, t)) : AppliesFirst s name := by
  induction s with
  | nil => cases h
  | cons c s ih =>
      rw [callee?] at h
      by_cases hread : c = '@' ∧ ∃ q, applied? s = some q
      · obtain ⟨rfl, q, hq⟩ := hread
        rw [if_pos rfl, hq] at h
        obtain rfl : q = (name, t) := Option.some.inj h
        exact ⟨[], appliesAt_nil_iff.2 ⟨rfl, t, hq⟩, fun before' _ _ => List.nil_prefix⟩
      · have hnone : (if c = '@' then applied? s else none) = none := by
          split
          next hc => exact Option.eq_none_iff_forall_ne_some.2 fun q hq => hread ⟨hc, q, hq⟩
          next => rfl
        rw [hnone] at h
        obtain ⟨before, hbefore, hfirst⟩ := ih h
        refine ⟨c :: before, appliesAt_cons_iff.2 ⟨rfl, hbefore⟩, ?_⟩
        intro before' name' happlies
        cases before' with
        | nil =>
            obtain ⟨hc, rest, hrest⟩ := appliesAt_nil_iff.1 happlies
            exact absurd ⟨hc, _, hrest⟩ hread
        | cons a before' =>
            obtain ⟨rfl, hbehind⟩ := appliesAt_cons_iff.1 happlies
            exact (List.prefix_cons_inj c).2 (hfirst before' name' hbehind)

theorem exists_callee?_of_appliesAt (h : AppliesAt s before name) : ∃ q, callee? s = some q := by
  induction s generalizing before with
  | nil => exact absurd h not_appliesAt_empty
  | cons c s ih =>
      rw [callee?]
      cases hread : if c = '@' then applied? s else none with
      | some q => exact ⟨q, rfl⟩
      | none =>
          cases before with
          | nil =>
              obtain ⟨rfl, rest, hrest⟩ := appliesAt_nil_iff.1 h
              rw [if_pos rfl, hrest] at hread
              cases hread
          | cons a before => exact ih (appliesAt_cons_iff.1 h).2

theorem AppliesFirst.name_unique (h : AppliesFirst s name) (h' : AppliesFirst s name') :
    name = name' := by
  obtain ⟨before, hat, hfirst⟩ := h
  obtain ⟨before', hat', hfirst'⟩ := h'
  obtain rfl : before = before' :=
    (hfirst _ _ hat').eq_of_length_le (hfirst' _ _ hat).length_le
  obtain ⟨hname, gap, rest, hgap, hs⟩ := hat
  obtain ⟨hname', gap', rest', hgap', hs'⟩ := hat'
  have htail : name ++ gap ++ '(' :: rest = name' ++ gap' ++ '(' :: rest' := by
    have heq := List.append_cancel_left (hs.symm.trans hs')
    simpa using heq
  have hread : applied? (name ++ gap ++ '(' :: rest) = some (name, rest) :=
    applied?_of_gap hname hgap
  rw [htail, applied?_of_gap hname' hgap'] at hread
  exact (Prod.mk.inj (Option.some.inj hread)).1.symm

/-- The callee is the symbol that is applied in front of all others. -/
theorem mem_callee?_iff : name ∈ (callee? s).map (·.1) ↔ AppliesFirst s name := by
  constructor
  · intro h
    obtain ⟨q, hq, rfl⟩ := Option.map_eq_some_iff.1 h
    exact appliesFirst_of_callee? (show _ = some (q.1, q.2) from hq)
  · rintro ⟨before, hat, hfirst⟩
    obtain ⟨q, hq⟩ := exists_callee?_of_appliesAt hat
    have hname : name = q.1 := AppliesFirst.name_unique ⟨before, hat, hfirst⟩
      (appliesFirst_of_callee? (show _ = some (q.1, q.2) from hq))
    rw [hname, hq]
    rfl

end IrSurvey.Instruction
