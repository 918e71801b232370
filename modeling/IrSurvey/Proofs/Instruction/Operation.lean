import IrSurvey.Proofs.Instruction.Operand
import IrSurvey.Proofs.Instruction.Parts

/-!
Operations on typed operands. Arithmetic, comparisons and returns show the values of their operands
whatever flags and type stand in front of the first, and whether or not a local value receives the
result.
-/
namespace IrSurvey.Instruction
open Text Operand
open Listing.Parameter (IsLocal)

/-- Two operands of one type, which stands in front of the first. -/
def pairText (left : Typed) (right : List Char) : List Char :=
  left.text ++ ',' :: ' ' :: right

/-- Two values around a sign. -/
def signed (left : List Char) (sign : String) (right : List Char) : String :=
  String.ofList (simplify left) ++ " " ++ sign ++ " " ++ String.ofList (simplify right)

variable {name : Option (List Char)} {right : List Char}

theorem splitTopLevel_pairText (left : Typed) (hright : IsAtom right) :
    splitTopLevel (trim (pairText left right)) = [trim left.text, right] := by
  have hback : BackSolid (pairText left right) := by
    have hback : BackSolid ([',', ' '] ++ right) :=
      (backSolid_append hright.ne_nil).2 hright.noBlank.backSolid
    exact (backSolid_append (List.cons_ne_nil _ _)).2 hback
  have htrim : [left.text, ' ' :: right].map trim = [trim left.text, right] := by
    have hright' : trim (' ' :: right) = right :=
      (trim_blank_append allBlank_space right).trans hright.noBlank.trim_eq
    rw [List.map_cons, List.map_singleton, hright']
  have hjoin : pairText left right = [','].intercalate [left.text, ' ' :: right] := by
    simp [pairText, List.intercalate_cons_cons]
  rw [trim_eq_trimStart hback, splitTopLevel_trimStart, hjoin, splitTopLevel_intercalate, htrim]
  · rw [htrim]
    simp only [List.forall_mem_cons]
    refine ⟨⟨commasNested_trim.2 left.commasNested_text, ?_⟩, ⟨?_, ?_⟩, nofun⟩
    · rw [bracketDepth_trim, left.bracketDepth_text]
    · exact commasNested_of_plain hright.plain
    · exact bracketDepth_of_plain hright.plain
  · rw [htrim]
    rintro p ⟨⟩
    exact hright.ne_nil

theorem lowerBinary_pairText (sign : String) (left : Typed) (hright : IsAtom right) :
    lowerBinary sign (trim (pairText left right)) = .comment (signed left.value sign right) := by
  rw [lowerBinary, splitTopLevel_pairText left hright]
  simp only [left.value_trim_text, hright.value_eq, signed]

theorem lowerReturn_text (o : Typed) :
    lowerReturn (trim o.text) =
      .statement (if o.value ∈ ["undef".toList, "poison".toList, "void".toList] then "return;"
        else "return " ++ String.ofList (simplify o.value) ++ ";") := by
  have hsplit : splitTopLevel (trim o.text) = [trim o.text] := by
    have hnested : CommasNested 0 (trim o.text) := commasNested_trim.2 o.commasNested_text
    rw [splitTopLevel_eq_singleton hnested (by rw [trim_trim]; exact o.trim_text_ne_nil), trim_trim]
  have hnone : isNoValue o.value = true ↔
      o.value ∈ ["undef".toList, "poison".toList, "void".toList] := by
    simp only [isNoValue, Bool.or_eq_true, decide_eq_true_eq, List.mem_cons, List.not_mem_nil,
      or_false, or_assoc]
  rw [lowerReturn, hsplit]
  simp only [List.head?_cons, Option.getD_some, trim_trim, o.trim_text_ne_nil, false_or,
    lastWord_trim, o.lastWord_text, o.value_trim_text, hnone]
  split
  next => rfl
  next =>
      rw [String.ofList_append, String.ofList_append, String.ofList_toList]

/-- Operands are found whatever stands in front of the first. -/
theorem lowerLine_typed (left : Typed) (hright : IsAtom right) (hname : ∀ n ∈ name, IsLocal n) :
    (∀ p ∈ arithmeticSigns,
      lowerLine (codeLine name p.1 (pairText left right)) =
        .comment (signed left.value p.2 right)) ∧
    (∀ p ∈ comparisonSigns,
      lowerLine (codeLine name "icmp" (p.1.toList ++ ' ' :: pairText left right)) =
        .comment (signed left.value p.2 right)) ∧
    lowerLine (codeLine name "ret" left.text) =
      .statement (if left.value ∈ ["undef".toList, "poison".toList, "void".toList] then "return;"
        else "return " ++ String.ofList (simplify left.value) ++ ";") := by
  refine ⟨?_, ?_, ?_⟩
  · rintro ⟨opcode, sign⟩ hp
    have hop : Opcode.ofWord? opcode.toList = some (.arithmetic sign) :=
      Opcode.ofWord?_eq_arithmetic_iff.2 (by rwa [String.ofList_toList])
    rw [lowerLine_codeLine hname hop, lower]
    simp only [hop]
    exact lowerBinary_pairText sign left hright
  · rintro ⟨predicate, sign⟩ hp
    have hsign : comparison? predicate.toList = some sign :=
      comparison?_eq_some_iff.2 (by rwa [String.ofList_toList])
    have hop : Opcode.ofWord? "icmp".toList = some .compare := by decide
    have hword : firstWord (trim (predicate.toList ++ ' ' :: pairText left right)) =
        (predicate.toList, trim (pairText left right)) := by
      have hword := isAtom_of_comparison? hsign
      rw [firstWord_trim, firstWord_append_cons hword.ne_nil hword.noBlank (by decide)]
      rfl
    rw [lowerLine_codeLine hname hop, lower]
    simp only [hop, lowerCompare, hword, hsign]
    exact lowerBinary_pairText sign left hright
  · have hop : Opcode.ofWord? "ret".toList = some .ret := by decide
    rw [lowerLine_codeLine hname hop, lower]
    simp only [hop]
    exact lowerReturn_text left

/-- Commas, blanks and brackets of all kinds in the type. -/
theorem lowerLine_typed_nested :
    (IsAtom "-7".toList ∧ ∀ n ∈ some "t.1".toList, IsLocal n) ∧
      lowerLine "%t.1 = sub nsw  { i32, <2 x i8> (ptr, ...)* } %a, -7" = .comment "a - -7" ∧
      lowerLine "%t.1 = icmp ult  { i32, <2 x i8> (ptr, ...)* } %a, -7" = .comment "a < -7" := by
  have hright : IsAtom "-7".toList := by decide
  have hname : ∀ n ∈ some "t.1".toList, IsLocal n := by decide
  obtain ⟨hsub, -, -⟩ := lowerLine_typed
    { type := "nsw  { i32, <2 x i8> (ptr, ...)* }".toList, value := "%a".toList } hright hname
  obtain ⟨-, hult, -⟩ := lowerLine_typed
    { type := " { i32, <2 x i8> (ptr, ...)* }".toList, value := "%a".toList } hright hname
  exact ⟨⟨hright, hname⟩, hsub ("sub", "-") (by decide), hult ("ult", "<") (by decide)⟩

end IrSurvey.Instruction
