import IrSurvey.Proofs.Instruction.Callee
import IrSurvey.Proofs.Instruction.Parts
import IrSurvey.Proofs.Listing.Literal

/-!
Calls in which every sigil stands in a quoted string. The callee is looked for without regard to
quotes, so the call is shown if a string applies a symbol, as the templates of inline assembly do,
and the first symbol applied is no intrinsic.
-/
namespace IrSurvey.Instruction
open Text
open Listing.Parameter (IsLocal)
open Listing.Literal (tokens tokensAmong intercalate_quote)

/-- The stretches of a line that is cut at its quotes which stand in no quoted string. The quotes
are paired from the left, and one without a partner opens no string. -/
def outsideAmong : List (List Char) → List (List Char)
  | front :: _ :: rest :: ps => front :: outsideAmong (rest :: ps)
  | ps => ps

/-- Every sigil of the line stands in a quoted string. -/
def SigilsQuoted (line : List Char) : Prop :=
  ∀ p ∈ outsideAmong (line.splitOn '"'), '@' ∉ p

instance (line : List Char) : Decidable (SigilsQuoted line) :=
  inferInstanceAs (Decidable (∀ p ∈ outsideAmong (line.splitOn '"'), '@' ∉ p))

/-- The names of the symbols that a text applies. -/
def appliedNames (s : List Char) : List (List Char) :=
  (applications s).map (·.1)

/-- The names of the symbols that the quoted strings of a line apply. -/
def quotedNames (line : List Char) : List (List Char) :=
  (tokens line).flatMap fun t => appliedNames t.content

variable {s t : List Char} {ps : List (List Char)} {line : String}

theorem appliedNames_eq_nil (h : '@' ∉ s) : appliedNames s = [] := by
  rw [appliedNames, applications_eq_nil h]
  rfl

theorem appliedNames_append_of_not_mem (h : '@' ∉ s) (t : List Char) :
    appliedNames (s ++ t) = appliedNames t := by
  rw [appliedNames, applications_append_of_not_mem h]
  rfl

/-- A quote cuts a text: neither a name nor a blank, it ends every application in front of it. -/
theorem appliedNames_quote (s t : List Char) :
    appliedNames (s ++ '"' :: t) = appliedNames s ++ appliedNames t := by
  have hname : ∀ c ∈ ('"' :: t).head?, isSymbolChar c = false := by
    rintro c ⟨⟩
    decide
  have hsolid : trimStart ('"' :: t) = '"' :: t := trimStart_eq_self (by rintro c ⟨⟩; decide)
  have hopen : (trimStart ('"' :: t)).head? ≠ some '(' := by
    rw [hsolid]
    exact show some '"' ≠ some '(' by decide
  rw [appliedNames, applications_append hname hopen, applications_cons_of_ne (by decide),
    List.map_append, List.map_map]
  rfl

theorem appliedNames_append_blank (ht : AllBlank t) : appliedNames (s ++ t) = appliedNames s := by
  have hname : ∀ c ∈ t.head?, isSymbolChar c = false := fun c hc =>
    isSymbolChar_of_isBlank (ht c (List.mem_of_mem_head? hc))
  have hopen : (trimStart t).head? ≠ some '(' := by
    rw [trimStart_eq_nil_iff.2 ht]
    nofun
  have hsigil : '@' ∉ t := fun hmem => absurd (ht _ hmem) (by decide)
  rw [appliedNames, applications_append hname hopen, applications_eq_nil hsigil, List.append_nil,
    List.map_map]
  rfl

theorem appliedNames_intercalate_quote (h : ∀ p ∈ outsideAmong ps, '@' ∉ p) :
    appliedNames (['"'].intercalate ps) =
      (tokensAmong ps).flatMap fun t => appliedNames t.content := by
  fun_induction tokensAmong ps with
  | case1 front content rest ps ih =>
      obtain ⟨hfront, hrest⟩ := List.forall_mem_cons.1 h
      rw [intercalate_quote, appliedNames_quote, appliedNames_quote, appliedNames_eq_nil hfront,
        List.nil_append, List.flatMap_cons, ih hrest]
  | case2 ps hps =>
      -- no string is closed, so all stretches stand outside
      rcases ps with _ | ⟨p, _ | ⟨q, _ | ⟨r, ps⟩⟩⟩
      · rfl
      · rw [List.intercalate_singleton]
        exact appliedNames_eq_nil (h p List.mem_cons_self)
      · obtain ⟨hp, hq⟩ := List.forall_mem_cons.1 h
        rw [List.intercalate_cons_cons, List.intercalate_singleton, List.append_assoc,
          List.singleton_append, appliedNames_quote, appliedNames_eq_nil hp,
          appliedNames_eq_nil (hq q List.mem_cons_self)]
        rfl
      · exact absurd rfl (hps p q r ps)

/-- The symbols that the operands of a line apply are those that its strings apply. -/
theorem appliedNames_operands (hopcode : ∀ c ∈ (ofLine s).opcode, isLead c = true)
    (hquoted : SigilsQuoted s) : appliedNames (ofLine s).operands = quotedNames s := by
  obtain ⟨p, b, hp, hb, hs⟩ := exists_lead_ofLine hopcode
  have hsigil : '@' ∉ p := fun hmem => absurd (hp _ hmem) (by decide)
  have hjoin : ['"'].intercalate (s.splitOn '"') = s := List.intercalate_splitOn '"'
  calc appliedNames (ofLine s).operands
      = appliedNames ((ofLine s).operands ++ b) := (appliedNames_append_blank hb).symm
    _ = appliedNames s := by
        conv_rhs => rw [hs, appliedNames_append_of_not_mem hsigil]
    _ = quotedNames s := by
        conv_lhs => rw [← hjoin]
        exact appliedNames_intercalate_quote hquoted

theorem exists_lowerCall_eq_statement_iff :
    (∃ text, lowerCall s = .statement text) ↔
      ∃ name ∈ (appliedNames s).head?, ¬ "llvm.".toList <+: name := by
  rw [appliedNames, List.head?_map, ← callee?_eq_head?]
  cases h : callee? s with
  | none =>
      rw [lowerCall, h]
      refine iff_of_false ?_ ?_
      · rintro ⟨_, ⟨⟩⟩
      · rintro ⟨_, ⟨⟩, _⟩
  | some q =>
      rw [lowerCall_of_callee? (show _ = some (q.1, q.2) from h), Option.map_some]
      split
      next hi =>
          refine iff_of_false ?_ ?_
          · rintro ⟨_, ⟨⟩⟩
          · rintro ⟨_, ⟨⟩, hname⟩
            exact hname (isIntrinsic_iff.1 hi)
      next hi => exact iff_of_true ⟨_, rfl⟩ ⟨q.1, rfl, mt isIntrinsic_iff.2 hi⟩

/-- A call whose sigils are all quoted is shown as a statement exactly if its strings apply a
symbol, and the first that they apply is no intrinsic. -/
theorem exists_lowerLine_eq_statement_iff (hcall : (ofLine line.toList).opcode = "call".toList)
    (hquoted : SigilsQuoted line.toList) :
    (∃ text, lowerLine line = .statement text) ↔
      ∃ name ∈ (quotedNames line.toList).head?, ¬ "llvm.".toList <+: name := by
  have hop : Opcode.ofWord? (ofLine line.toList).opcode = some .call := by
    rw [hcall]
    decide
  have hlead : ∀ c ∈ (ofLine line.toList).opcode, isLead c = true := by
    rw [hcall]
    exact List.all_eq_true.1 (by decide)
  rw [← appliedNames_operands hlead hquoted, ← exists_lowerCall_eq_statement_iff, lowerLine, lower,
    hop]

/-- Sigils in the template of an assembly call and behind it, none in front of a parenthesis. -/
theorem exists_lowerLine_eq_statement_iff_template :
    let line := codeLine (some "1".toList) "call"
      "i64 asm sideeffect \"call read@PLT\", \"=r\"(ptr %p, metadata !\"x@y\")".toList
    ((ofLine line.toList).opcode = "call".toList ∧ SigilsQuoted line.toList) ∧
      ¬ ∃ text, lowerLine line = .statement text := by
  intro line
  have hname : ∀ n ∈ some "1".toList, IsLocal n := by decide
  have hop : Opcode.ofWord? "call".toList = some .call := by decide
  have hcall : (ofLine line.toList).opcode = "call".toList :=
    congrArg opcode (ofLine_codeLine hname hop _)
  have hquoted : SigilsQuoted line.toList := by decide
  have hnone : quotedNames line.toList = [] := by decide
  refine ⟨⟨hcall, hquoted⟩, ?_⟩
  rw [exists_lowerLine_eq_statement_iff hcall hquoted, hnone]
  nofun

/-- The relocation of a symbol is taken for a callee. -/
theorem not_forall_lowerLine_ne_statement :
    ¬ ∀ line : String, (ofLine line.toList).opcode = "call".toList → SigilsQuoted line.toList →
      ∀ text, lowerLine line ≠ .statement text := by
  intro h
  have hname : ∀ n ∈ some "1".toList, IsLocal n := by decide
  have hop : Opcode.ofWord? "call".toList = some .call := by decide
  have hcode := ofLine_codeLine hname hop "ptr asm \"movq foo@GOTPCREL(%rip), $0\", \"=r\"()".toList
  refine h _ (congrArg opcode hcode) (by decide) "GOTPCREL(rip);" ?_
  rw [lowerLine, hcode]
  decide

end IrSurvey.Instruction
