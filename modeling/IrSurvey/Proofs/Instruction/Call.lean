import IrSurvey.Proofs.Instruction.Callee
import IrSurvey.Proofs.Instruction.Operand
import IrSurvey.Proofs.Instruction.Parts
import IrSurvey.Proofs.Text.Bracket

/-!
Direct calls. A call of a symbol shows the symbol and the values of its arguments, whatever type
stands in front of the symbol and whatever text behind the argument list. A list that never closes
shows no arguments, and an intrinsic shows nothing at all.
-/
namespace IrSurvey.Instruction
open Text Operand
open Listing.Parameter (IsLocal)

/-- A call of a symbol: a return type, the name, blanks, and what stands behind the parenthesis. -/
def callLine (type name gap rest : List Char) : String :=
  codeLine none "call" (type ++ '@' :: (name ++ gap ++ '(' :: rest))

/-- A call with its arguments, as it is shown. -/
def shownCall (name : List Char) (values : List (List Char)) : Lowered :=
  .statement (String.ofList (name ++ '(' :: ", ".toList.intercalate values ++ ");".toList))

variable {type name gap : List Char}

theorem callee?_trim (htype : '@' ∉ type) (hname : IsSymbol name) (hgap : AllBlank gap)
    (rest : List Char) :
    callee? (trim (type ++ '@' :: (name ++ gap ++ '(' :: rest))) = some (name, trimEnd rest) := by
  have hend : trimEnd (type ++ '@' :: (name ++ gap ++ '(' :: rest)) =
      type ++ '@' :: (name ++ gap ++ '(' :: trimEnd rest) := by
    have happ : ∀ r, type ++ '@' :: (name ++ gap ++ '(' :: r) =
        (type ++ '@' :: (name ++ gap)) ++ '(' :: r := fun r => by simp
    rw [happ, happ, trimEnd_append_cons (by decide)]
  rw [trim, ← trimStart_trimEnd, hend, callee?_eq_head?, applications_trimStart,
    applications_append_of_not_mem htype, applications, if_pos rfl, applied?_of_gap hname hgap]
  rfl

theorem lowerLine_callLine_eq (htype : '@' ∉ type) (hname : IsSymbol name) (hgap : AllBlank gap)
    (rest : List Char) :
    lowerLine (callLine type name gap rest) =
      if isIntrinsic name then .elided
      else .statement (String.ofList
        (name ++ '(' :: (splitClose? '(' ')' (trimEnd rest)).elim [] (arguments ·.1) ++
          ");".toList)) := by
  have hop : Opcode.ofWord? "call".toList = some .call := by decide
  have hnone : ∀ n ∈ (none : Option (List Char)), IsLocal n := nofun
  rw [callLine, lowerLine_codeLine hnone hop, lower]
  simp only [hop]
  exact lowerCall_of_callee? (callee?_trim htype hname hgap rest)

theorem lowerLine_callLine_closed (htype : '@' ∉ type) (hname : IsSymbol name)
    (hgap : AllBlank gap) (hintrinsic : ¬ "llvm.".toList <+: name) {args : List Char}
    (hargs : Balanced '(' ')' args) (behind : List Char) :
    lowerLine (callLine type name gap (args ++ ')' :: behind)) =
      .statement (String.ofList (name ++ '(' :: arguments args ++ ");".toList)) := by
  have hclose : splitClose? '(' ')' (trimEnd (args ++ ')' :: behind)) =
      some (args, trimEnd behind) := by
    rw [trimEnd_append_cons (by decide)]
    exact (splitClose?_eq_some_iff (by decide)).2 ⟨rfl, hargs⟩
  rw [lowerLine_callLine_eq htype hname hgap, if_neg (mt isIntrinsic_iff.1 hintrinsic), hclose]
  rfl

theorem lowerLine_callLine_open (htype : '@' ∉ type) (hname : IsSymbol name) (hgap : AllBlank gap)
    (hintrinsic : ¬ "llvm.".toList <+: name) {rest : List Char} (hrest : StaysOpen '(' ')' 0 rest) :
    lowerLine (callLine type name gap rest) = shownCall name [] := by
  have hclose : splitClose? '(' ')' (trimEnd rest) = none := by
    obtain ⟨g, -, hg⟩ := exists_blank_trimEnd rest
    refine (splitClose?_eq_none_iff (by decide)).2 fun p hp => hrest p (hp.trans ⟨g, hg.symm⟩)
  rw [lowerLine_callLine_eq htype hname hgap, if_neg (mt isIntrinsic_iff.1 hintrinsic), hclose]
  rfl

/-- A direct call is shown with its callee and the values of its arguments. -/
theorem lowerLine_callLine (htype : '@' ∉ type) (hname : IsSymbol name) (hgap : AllBlank gap) :
    ("llvm.".toList <+: name → ∀ rest, lowerLine (callLine type name gap rest) = .elided) ∧
    (¬ "llvm.".toList <+: name →
      (∀ args behind, Balanced '(' ')' args →
        (AllBlank args →
          lowerLine (callLine type name gap (args ++ ')' :: behind)) = shownCall name []) ∧
        ∀ os : List Typed, args = [','].intercalate (os.map Typed.text) →
          lowerLine (callLine type name gap (args ++ ')' :: behind)) =
            shownCall name (shownValues os)) ∧
      ∀ rest, StaysOpen '(' ')' 0 rest →
        lowerLine (callLine type name gap rest) = shownCall name []) := by
  refine ⟨?_, ?_⟩
  · intro hintrinsic rest
    rw [lowerLine_callLine_eq htype hname hgap, if_pos (isIntrinsic_iff.2 hintrinsic)]
  · intro hintrinsic
    refine ⟨?_, ?_⟩
    · intro args behind hargs
      have hclosed := lowerLine_callLine_closed htype hname hgap hintrinsic hargs behind
      refine ⟨?_, ?_⟩
      · intro hblank
        rw [hclosed, arguments_blank hblank]
        rfl
      · rintro os rfl
        rw [hclosed, arguments_intercalate, shownCall]
    · intro rest hrest
      exact lowerLine_callLine_open htype hname hgap hintrinsic hrest

/-- More arguments than are shown, one of them an aggregate, in front of attributes. -/
theorem lowerLine_callLine_variadic :
    ('@' ∉ "i32 (ptr, ...) ".toList ∧ IsSymbol "printf".toList ∧ AllBlank " ".toList ∧
      ¬ "llvm.".toList <+: "printf".toList ∧
      Balanced '(' ')' "ptr @.str,{ i32, i32 } %agg,i32 3, i64 -4, ptr null, i32 %n".toList) ∧
    lowerLine ("call i32 (ptr, ...) @printf (ptr @.str,{ i32, i32 } %agg,i32 3, i64 -4, ptr null, " ++
        "i32 %n) #3, !dbg !7") = .statement "printf(.str, agg, 3, -4, null, ...);" := by
  have htype : '@' ∉ "i32 (ptr, ...) ".toList := by decide
  have hname : IsSymbol "printf".toList := ⟨by decide, List.all_eq_true.1 (by decide)⟩
  have hgap : AllBlank " ".toList := allBlank_space
  have hintrinsic : ¬ "llvm.".toList <+: "printf".toList := by decide
  have hargs : Balanced '(' ')'
      "ptr @.str,{ i32, i32 } %agg,i32 3, i64 -4, ptr null, i32 %n".toList := by decide
  let os : List Typed :=
    [{ type := "ptr".toList, value := "@.str".toList },
     { type := "{ i32, i32 }".toList, value := "%agg".toList },
     { type := "i32".toList, value := "3".toList },
     { type := " i64".toList, value := "-4".toList },
     { type := " ptr".toList, value := "null".toList },
     { type := " i32".toList, value := "%n".toList }]
  obtain ⟨-, hshown⟩ := lowerLine_callLine htype hname hgap
  obtain ⟨-, hvalues⟩ := (hshown hintrinsic).1 _ " #3, !dbg !7".toList hargs
  exact ⟨⟨htype, hname, hgap, hintrinsic, hargs⟩, hvalues os (by decide)⟩

end IrSurvey.Instruction
