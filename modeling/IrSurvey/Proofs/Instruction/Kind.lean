import IrSurvey.Proofs.Instruction.Line
import IrSurvey.Proofs.Instruction.Quotes
import IrSurvey.Proofs.Instruction.Rule

/-!
Which instructions are shown as statements and which as comments. The opcode and the shape of the
operands decide, whatever the order of the rules. A statement ends in a semicolon and cannot be
taken for a comment, and both are on one line.
-/
namespace IrSurvey.Instruction
open Text

/-- A return, or a call in which the first symbol applied is no intrinsic. -/
def ShowsStatement (i : Instruction) : Prop :=
  String.ofList i.opcode = "ret" ∨
    String.ofList i.opcode = "call" ∧
      ∃ name, AppliesFirst i.operands name ∧ ¬ "llvm.".toList <+: name

/-- A branch, an access to memory or a local variable; an arithmetic operation of two operands; a
comparison of two operands by a predicate that is shown. -/
def ShowsComment (i : Instruction) : Prop :=
  String.ofList i.opcode ∈ ["br", "load", "store", "alloca"] ∨
    (String.ofList i.opcode ∈ ["add", "sub", "mul", "udiv", "sdiv"] ∧
      2 ≤ (splitTopLevel i.operands).length) ∨
    (String.ofList i.opcode = "icmp" ∧
      String.ofList (firstWord i.operands).1 ∈ ["eq", "ne", "ult", "ugt"] ∧
      2 ≤ (splitTopLevel (firstWord i.operands).2).length)

variable {i : Instruction} {s : List Char} {sign text : String} {line : String}

/-! ## The kind -/

theorem exists_lowerCall_eq_statement_iff_first :
    (∃ text, lowerCall s = .statement text) ↔
      ∃ name, AppliesFirst s name ∧ ¬ "llvm.".toList <+: name := by
  rw [exists_lowerCall_eq_statement_iff, appliedNames, List.head?_map, ← callee?_eq_head?]
  exact exists_congr fun name => and_congr_left fun _ => mem_callee?_iff

theorem lowerCall_ne_comment (s : List Char) (text : String) : lowerCall s ≠ .comment text := by
  intro h
  cases hcallee : callee? s with
  | none =>
      rw [lowerCall, hcallee] at h
      cases h
  | some q =>
      rw [lowerCall_of_callee? (show _ = some (q.1, q.2) from hcallee)] at h
      split at h <;> cases h

theorem exists_lowerReturn_eq_statement (s : List Char) :
    ∃ text, lowerReturn s = .statement text := by
  unfold lowerReturn
  dsimp only
  split
  next => exact ⟨_, rfl⟩
  next => exact ⟨_, rfl⟩

theorem lowerBinary_ne_statement (sign : String) (s : List Char) (text : String) :
    lowerBinary sign s ≠ .statement text := by
  intro h
  unfold lowerBinary at h
  split at h <;> cases h

theorem exists_lowerBinary_eq_comment_iff :
    (∃ text, lowerBinary sign s = .comment text) ↔ 2 ≤ (splitTopLevel s).length := by
  unfold lowerBinary
  generalize splitTopLevel s = ps
  rcases ps with _ | ⟨left, _ | ⟨right, ps⟩⟩
  · simp
  · simp
  · simp

theorem lowerCompare_ne_statement (s : List Char) (text : String) :
    lowerCompare s ≠ .statement text := by
  unfold lowerCompare
  split
  next sign hsign => exact lowerBinary_ne_statement sign _ text
  next => nofun

theorem exists_lowerCompare_eq_comment_iff :
    (∃ text, lowerCompare s = .comment text) ↔
      String.ofList (firstWord s).1 ∈ ["eq", "ne", "ult", "ugt"] ∧
        2 ≤ (splitTopLevel (firstWord s).2).length := by
  have hshown : String.ofList (firstWord s).1 ∈ ["eq", "ne", "ult", "ugt"] ↔
      ∃ sign, comparison? (firstWord s).1 = some sign := by
    simp only [comparison?_eq_some_iff]
    simp [comparisonSigns, exists_or]
  rw [hshown, lowerCompare]
  cases comparison? (firstWord s).1 with
  | none => simp
  | some sign => simp [exists_lowerBinary_eq_comment_iff]

theorem exists_lower_eq_statement_iff :
    (∃ text, lower i = .statement text) ↔ ShowsStatement i := by
  have hret : String.ofList i.opcode = "ret" ↔ Opcode.ofWord? i.opcode = some .ret := by
    simp [Opcode.ofWord?_eq_some_iff, opcodeWords]
  have hcall : String.ofList i.opcode = "call" ↔ Opcode.ofWord? i.opcode = some .call := by
    simp [Opcode.ofWord?_eq_some_iff, opcodeWords]
  rw [ShowsStatement, hret, hcall, ← exists_lowerCall_eq_statement_iff_first, lower]
  cases Opcode.ofWord? i.opcode with
  | none => simp
  | some op =>
      cases op with
      | call => simp
      | ret => simp [exists_lowerReturn_eq_statement]
      | arithmetic sign => simp [lowerBinary_ne_statement]
      | compare => simp [lowerCompare_ne_statement]
      | branch => simp
      | memory => simp
      | alloca => simp

theorem exists_lower_eq_comment_iff :
    (∃ text, lower i = .comment text) ↔ ShowsComment i := by
  have hremark : String.ofList i.opcode ∈ ["br", "load", "store", "alloca"] ↔
      ∃ op ∈ [Opcode.branch, .memory, .alloca], Opcode.ofWord? i.opcode = some op := by
    simp [Opcode.ofWord?_eq_some_iff, opcodeWords, or_assoc]
  have harithmetic : String.ofList i.opcode ∈ ["add", "sub", "mul", "udiv", "sdiv"] ↔
      ∃ sign, Opcode.ofWord? i.opcode = some (.arithmetic sign) := by
    simp [Opcode.ofWord?_eq_arithmetic_iff, arithmeticSigns, exists_or]
  have hcompare : String.ofList i.opcode = "icmp" ↔ Opcode.ofWord? i.opcode = some .compare := by
    simp [Opcode.ofWord?_eq_some_iff, opcodeWords]
  rw [ShowsComment, hremark, harithmetic, hcompare, ← exists_lowerCompare_eq_comment_iff, lower]
  cases Opcode.ofWord? i.opcode with
  | none => simp
  | some op =>
      cases op with
      | call => simp [lowerCall_ne_comment]
      | ret =>
          obtain ⟨text, htext⟩ := exists_lowerReturn_eq_statement i.operands
          simp [htext]
      | arithmetic sign => simp [exists_lowerBinary_eq_comment_iff]
      | compare => simp
      | branch => simp
      | memory => simp
      | alloca => simp

theorem lower_eq_elided_iff : lower i = .elided ↔ ¬ ShowsStatement i ∧ ¬ ShowsComment i := by
  rw [← exists_lower_eq_statement_iff, ← exists_lower_eq_comment_iff]
  cases lower i with
  | statement text => simp
  | comment text => simp
  | elided => simp

/-! ## The line -/

theorem not_slashes_prefix (h : s.head? ≠ some '/') : ¬ "//".toList <+: s := by
  rintro ⟨t, rfl⟩
  exact h rfl

theorem statement_text_of_lowerCall (h : lowerCall s = .statement text) :
    text.toList.getLast? = some ';' ∧ ¬ "//".toList <+: text.toList := by
  cases hcallee : callee? s with
  | none =>
      rw [lowerCall, hcallee] at h
      cases h
  | some q =>
      obtain ⟨⟨hne, hname⟩, -⟩ := callee?_sound hcallee
      rw [lowerCall_of_callee? (show _ = some (q.1, q.2) from hcallee)] at h
      split at h
      next => cases h
      next =>
          obtain rfl := Lowered.statement.inj h
          rw [String.toList_ofList]
          refine ⟨?_, not_slashes_prefix ?_⟩
          · rw [List.getLast?_append_of_ne_nil _ (by decide)]
            rfl
          · rw [List.append_assoc, List.head?_append_of_ne_nil _ hne]
            intro hhead
            exact absurd (hname '/' (List.mem_of_mem_head? hhead)) (by decide)

theorem statement_text_of_lowerReturn (h : lowerReturn s = .statement text) :
    text.toList.getLast? = some ';' ∧ ¬ "//".toList <+: text.toList := by
  unfold lowerReturn at h
  dsimp only at h
  split at h
  next =>
      obtain rfl := Lowered.statement.inj h
      decide
  next =>
      obtain rfl := Lowered.statement.inj h
      rw [String.toList_ofList]
      refine ⟨?_, not_slashes_prefix (by nofun)⟩
      rw [List.getLast?_append_of_ne_nil _ (by decide)]
      rfl

/-- A statement ends in a semicolon and starts no comment. -/
theorem statement_text_of_lower (h : lower i = .statement text) :
    text.toList.getLast? = some ';' ∧ ¬ "//".toList <+: text.toList := by
  rw [lower] at h
  cases hop : Opcode.ofWord? i.opcode with
  | none =>
      rw [hop] at h
      cases h
  | some op =>
      rw [hop] at h
      cases op with
      | call => exact statement_text_of_lowerCall h
      | ret => exact statement_text_of_lowerReturn h
      | arithmetic sign => exact absurd h (lowerBinary_ne_statement sign _ text)
      | compare => exact absurd h (lowerCompare_ne_statement _ text)
      | branch => cases h
      | memory => cases h
      | alloca => cases h

/-- The opcode and the operands of a line decide how it is shown, and the rules say the same in
every order. What is shown of a line is on one line, a statement with a semicolon at its end and
not behind the sign of a comment, a comment behind it. -/
theorem lowerLine_kind (line : String) :
    let i := ofLine line.toList
    ((∃ text, lowerLine line = .statement text) ↔ ShowsStatement i) ∧
    ((∃ text, lowerLine line = .comment text) ↔ ShowsComment i) ∧
    (lowerLine line = .elided ↔ ¬ ShowsStatement i ∧ ¬ ShowsComment i) ∧
    rules.countP (fun r => (r.lower? i).isSome) ≤ 1 ∧
    (∀ table, table.Perm rules → classify table i = lowerLine line) ∧
    ((lowerLine line).line? = none ↔ lowerLine line = .elided) ∧
    (∀ text, lowerLine line = .statement text → ∃ shown, (lowerLine line).line? = some shown ∧
      shown.toList.getLast? = some ';' ∧ ¬ "//".toList <+: shown.toList) ∧
    (∀ text, lowerLine line = .comment text → ∃ shown, (lowerLine line).line? = some shown ∧
      "// ".toList <+: shown.toList) ∧
    (OneLine line → ∀ shown ∈ (lowerLine line).line?, OneLine shown) := by
  intro i
  refine ⟨exists_lower_eq_statement_iff, exists_lower_eq_comment_iff, lower_eq_elided_iff,
    countP_isSome_lower?_le exclusive_rules i, ?_, ?_, ?_, ?_, oneLine_lowerLine⟩
  · intro table hperm
    rw [classify_perm hperm exclusive_rules, classify_rules]
    rfl
  · cases lowerLine line with
    | statement text => simp [Lowered.line?]
    | comment text => simp [Lowered.line?]
    | elided => simp [Lowered.line?]
  · intro text h
    rw [h]
    exact ⟨text, rfl, statement_text_of_lower (i := i) h⟩
  · intro text h
    rw [h]
    refine ⟨"// " ++ text, rfl, ?_⟩
    rw [String.toList_append]
    exact List.prefix_append _ _

/-- An opcode as the callee and another among the arguments, and a comparison of two operands that
are empty, by the rules from the last to the first. -/
theorem lowerLine_kind_reversed :
    let call := "%x = tail call i32 @ret (i32 %add)"
    let compare := "icmp ult ,,"
    (OneLine call ∧ OneLine compare ∧ rules.reverse.Perm rules ∧
        lowerLine call = .statement "ret(add);" ∧ lowerLine compare = .comment " < ") ∧
      (ShowsStatement (ofLine call.toList) ∧
        classify rules.reverse (ofLine call.toList) = .statement "ret(add);" ∧
        OneLine "ret(add);" ∧ ¬ "//".toList <+: "ret(add);".toList) ∧
      ShowsComment (ofLine compare.toList) ∧
        classify rules.reverse (ofLine compare.toList) = .comment " < " ∧
        OneLine "//  < " ∧ "// ".toList <+: "//  < ".toList := by
  intro call compare
  have hcall : lowerLine call = .statement "ret(add);" := by decide +kernel
  have hcompare : lowerLine compare = .comment " < " := by decide +kernel
  have honeCall : OneLine call := by decide
  have honeCompare : OneLine compare := by decide
  have hperm : rules.reverse.Perm rules := rules.reverse_perm
  obtain ⟨hstatement, -, -, -, horder, -, htext, -, hone⟩ := lowerLine_kind call
  obtain ⟨-, hcomment, -, -, horder', -, -, htext', hone'⟩ := lowerLine_kind compare
  refine ⟨⟨honeCall, honeCompare, hperm, hcall, hcompare⟩, ⟨hstatement.1 ⟨_, hcall⟩,
    (horder _ hperm).trans hcall, hone honeCall _ ?_, ?_⟩, hcomment.1 ⟨_, hcompare⟩,
    (horder' _ hperm).trans hcompare, hone' honeCompare _ ?_, ?_⟩
  · rw [hcall]
    rfl
  · obtain ⟨shown, hshown, -, hslashes⟩ := htext _ hcall
    rw [hcall] at hshown
    obtain rfl : "ret(add);" = shown := Option.some.inj hshown
    exact hslashes
  · rw [hcompare]
    rfl
  · obtain ⟨shown, hshown, hslashes⟩ := htext' _ hcompare
    rw [hcompare] at hshown
    obtain rfl : "//  < " = shown := Option.some.inj hshown
    exact hslashes

end IrSurvey.Instruction
