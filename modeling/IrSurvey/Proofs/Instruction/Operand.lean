import IrSurvey.Instruction.Operand
import IrSurvey.Proofs.Text.TopLevel
import IrSurvey.Proofs.Text.Word

/-!
Operands as they are written: a type with its flags and attributes, a space, and a value. Whatever
nests in the type, the value is found as the last word, and operands that commas join are told
apart.
-/
namespace IrSurvey.Operand
open Text

/-- A value of one word, without commas and brackets. -/
structure IsAtom (w : List Char) : Prop where
  ne_nil : w ≠ []
  noBlank : NoBlank w
  plain : ∀ c ∈ w, IsPlain c

instance (w : List Char) : Decidable (IsAtom w) :=
  have : Decidable (∀ c ∈ w, IsPlain c) := List.decidableBAll IsPlain w
  decidable_of_iff (w ≠ [] ∧ NoBlank w ∧ ∀ c ∈ w, IsPlain c)
    ⟨fun h => ⟨h.1, h.2.1, h.2.2⟩, fun h => ⟨h.ne_nil, h.noBlank, h.plain⟩⟩

/-- A value behind a type that closes what it opens and has no comma outside brackets. -/
structure Typed where
  type : List Char
  value : List Char
  bracketDepth_type : bracketDepth type = 0 := by decide
  commasNested_type : CommasNested 0 type := by decide
  isAtom_value : IsAtom value := by decide

def Typed.text (o : Typed) : List Char :=
  o.type ++ ' ' :: o.value

/-- The values that are shown of a list of arguments: the first five, and dots if there are more. -/
def shownValues (os : List Typed) : List (List Char) :=
  (os.take 5).map (simplify ·.value) ++ if 5 < os.length then ["...".toList] else []

variable {s w : List Char}

theorem value_of_lastWord (hw : IsAtom w) (h : lastWord s = w) : value s = simplify w := by
  have hclosing : ¬ w.getLast?.any isClosing = true := by
    intro hany
    obtain ⟨c, hc, hclosing⟩ := (Option.any_eq_true _ _).1 hany
    rw [(hw.plain c (List.mem_of_getLast? hc)).2.2] at hclosing
    cases hclosing
  rw [value, h]
  exact if_neg hclosing

theorem IsAtom.value_eq (hw : IsAtom w) : value w = simplify w :=
  value_of_lastWord hw (lastWord_eq_self hw.ne_nil hw.noBlank)

namespace Typed

variable (o : Typed)

theorem lastWord_text : lastWord o.text = o.value :=
  lastWord_append_cons o.isAtom_value.ne_nil o.isAtom_value.noBlank (by decide) o.type

theorem value_trim_text : Operand.value (trim o.text) = simplify o.value :=
  value_of_lastWord o.isAtom_value (by rw [lastWord_trim, lastWord_text])

theorem commasNested_text : CommasNested 0 o.text := by
  have hvalue : ∀ c ∈ ' ' :: o.value, IsPlain c :=
    List.forall_mem_cons.2 ⟨by decide, o.isAtom_value.plain⟩
  exact commasNested_append.2 ⟨o.commasNested_type, commasNested_of_plain hvalue⟩

theorem bracketDepth_text : bracketDepth o.text = 0 := by
  have hvalue : ∀ c ∈ ' ' :: o.value, IsPlain c :=
    List.forall_mem_cons.2 ⟨by decide, o.isAtom_value.plain⟩
  rw [text, bracketDepth_append, o.bracketDepth_type, bracketDepth_of_plain hvalue]
  rfl

theorem trim_text_ne_nil : trim o.text ≠ [] := by
  intro h
  have hvalue := o.lastWord_text
  rw [← lastWord_trim, h] at hvalue
  exact o.isAtom_value.ne_nil hvalue.symm

end Typed

/-! ## Argument lists -/

theorem arguments_blank (h : AllBlank s) : arguments s = [] := by
  rw [arguments, splitTopLevel_eq_nil_iff.2 h]
  rfl

/-- Operands are told apart and each is shown as its value, up to the most that are shown. -/
theorem arguments_intercalate (os : List Typed) :
    arguments ([','].intercalate (os.map Typed.text)) = ", ".toList.intercalate (shownValues os) := by
  have hsplit : splitTopLevel ([','].intercalate (os.map Typed.text)) =
      os.map fun o => trim o.text := by
    have htrim : (os.map Typed.text).map trim = os.map fun o => trim o.text := List.map_map
    rw [splitTopLevel_intercalate, htrim]
    · rw [htrim]
      intro p hp
      obtain ⟨o, -, rfl⟩ := List.mem_map.1 hp
      exact ⟨commasNested_trim.2 o.commasNested_text, by rw [bracketDepth_trim, o.bracketDepth_text]⟩
    · intro p hp
      obtain ⟨q, hq, rfl⟩ := List.mem_map.1 (List.mem_of_getLast? hp)
      obtain ⟨o, -, rfl⟩ := List.mem_map.1 hq
      exact o.trim_text_ne_nil
  have hvalues : ((os.map fun o => trim o.text).take shownArguments).map value =
      (os.take 5).map (simplify ·.value) := by
    rw [← List.map_take, List.map_map]
    exact List.map_congr_left fun o _ => o.value_trim_text
  rw [arguments, hsplit, hvalues, List.length_map, shownValues]
  split
  next h => rw [if_pos (show 5 < os.length from h)]
  next h => rw [if_neg (show ¬ 5 < os.length from h), List.append_nil]

end IrSurvey.Operand
