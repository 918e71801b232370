import IrSurvey.Instruction.Lowering
import IrSurvey.Proofs.Text.Line
import IrSurvey.Proofs.Text.Piece

/-!
An instruction is shown on one line: no part of what is shown brings in a newline that the code does
not have.
-/
namespace IrSurvey
open Text
open scoped List

namespace Operand

variable {s : List Char}

theorem newline_not_mem_simplify (hs : '\n' ∉ s) : '\n' ∉ simplify s := by
  have hv : '\n' ∉ trim s := fun h => hs ((trim_sublist s).subset h)
  unfold simplify
  generalize trim s = v at hv
  dsimp only
  split
  next => exact hv
  next =>
      split
      next name =>
          split
          next => decide
          next => exact fun h => hv (List.mem_cons_of_mem _ h)
      next name =>
          split
          next => decide
          next => exact fun h => hv (List.mem_cons_of_mem _ h)
      next => exact fun h => hv (List.mem_of_mem_take h)

theorem newline_not_mem_value (hs : '\n' ∉ s) : '\n' ∉ value s := by
  unfold value
  dsimp only
  split
  next => exact newline_not_mem_simplify hs
  next => exact newline_not_mem_simplify fun h => hs ((lastWord_sublist s).subset h)

theorem newline_not_mem_arguments (hs : '\n' ∉ s) : '\n' ∉ arguments s := by
  have hvalue : ∀ v ∈ ((splitTopLevel s).take shownArguments).map value, '\n' ∉ v := by
    intro v hv
    obtain ⟨p, hp, rfl⟩ := List.mem_map.1 hv
    have hp' := sublist_of_mem_splitTopLevel (List.mem_of_mem_take hp)
    exact newline_not_mem_value fun h => hs (hp'.subset h)
  intro h
  rcases mem_intercalate h with h | ⟨v, hv, h⟩
  · exact absurd h (by decide)
  · split at hv
    next =>
        rcases List.mem_append.1 hv with hv | hv
        · exact hvalue v hv h
        · rw [List.mem_singleton.1 hv] at h
          exact absurd h (by decide)
    next => exact hvalue v hv h

end Operand

namespace Instruction

variable {s operands : List Char} {l : String}

theorem stripTemporary_sublist (s : List Char) : stripTemporary s <+ s := by
  have htrim : trim s <+ s := trim_sublist s
  unfold stripTemporary
  split
  next t ht =>
      split
      next r hr =>
          split
          next => exact htrim
          next =>
              have hdrop : trimStart r <+ t :=
                (trimStart_sublist r).trans ((List.sublist_cons_self _ r).trans
                  (hr ▸ (trimStart_sublist _).trans (List.dropWhile_sublist _)))
              exact (hdrop.cons '%').trans (ht ▸ htrim)
      next => exact htrim
  next => exact htrim

theorem ofCode_operands_sublist (s : List Char) : (ofCode s).operands <+ s := by
  fun_induction ofCode s with
  | case1 s _ ih => exact ih.trans (firstWord_snd_sublist s)
  | case2 s _ => exact firstWord_snd_sublist s

theorem callee?_sound {q : List Char × List Char} (h : callee? s = some q) :
    IsSymbol q.1 ∧ q.2 <+ s := by
  induction s with
  | nil => cases h
  | cons c s ih =>
      unfold callee? at h
      split at h
      next q' hq =>
          obtain rfl := Option.some.inj h
          split at hq
          next =>
              obtain ⟨-, -, hname, -⟩ := applied?_sound (show _ = some (q'.1, q'.2) from hq)
              exact ⟨hname, (applied?_snd_sublist hq).cons c⟩
          next => cases hq
      next => exact ⟨(ih h).1, (ih h).2.cons c⟩

theorem oneLine_lowerCall (hs : '\n' ∉ operands) :
    ∀ l ∈ (lowerCall operands).line?, OneLine l := by
  intro l hl
  unfold lowerCall at hl
  split at hl
  next => cases hl
  next name r hcallee =>
      obtain ⟨hname, hr⟩ := callee?_sound hcallee
      split at hl
      next => cases hl
      next =>
          obtain rfl := Option.some.inj hl
          have hargs : '\n' ∉ (splitClose? '(' ')' r).elim [] fun p => Operand.arguments p.1 := by
            cases hclose : splitClose? '(' ')' r with
            | none => exact List.not_mem_nil
            | some p =>
                exact Operand.newline_not_mem_arguments fun h =>
                  hs (hr.subset ((splitClose?_fst_sublist hclose).subset h))
          simp only [oneLine_ofList, List.mem_append, List.mem_cons, not_or]
          exact ⟨⟨hname.newline_not_mem, by decide, hargs⟩, by decide⟩

theorem oneLine_lowerReturn (hs : '\n' ∉ operands) :
    ∀ l ∈ (lowerReturn operands).line?, OneLine l := by
  intro l hl
  have hoperand : '\n' ∉ (splitTopLevel operands).head?.getD [] := by
    cases hp : splitTopLevel operands with
    | nil => exact List.not_mem_nil
    | cons p ps =>
        have hpiece : p ∈ splitTopLevel operands := by simp [hp]
        exact fun h => hs ((sublist_of_mem_splitTopLevel hpiece).subset h)
  unfold lowerReturn at hl
  dsimp only at hl
  split at hl
  next =>
      obtain rfl := Option.some.inj hl
      decide
  next =>
      obtain rfl := Option.some.inj hl
      simp only [oneLine_ofList, List.mem_append, not_or]
      exact ⟨⟨by decide, Operand.newline_not_mem_value hoperand⟩, by decide⟩

theorem oneLine_lowerBinary {sign : String} (hsign : OneLine sign) (hs : '\n' ∉ operands) :
    ∀ l ∈ (lowerBinary sign operands).line?, OneLine l := by
  intro l hl
  unfold lowerBinary at hl
  split at hl
  next left right rest hp =>
      have hpiece : ∀ p ∈ splitTopLevel operands, '\n' ∉ Operand.value p := fun p hp =>
        Operand.newline_not_mem_value fun h => hs ((sublist_of_mem_splitTopLevel hp).subset h)
      have hleft : '\n' ∉ Operand.value left := hpiece left (by simp [hp])
      have hright : '\n' ∉ Operand.value right := hpiece right (by simp [hp])
      obtain rfl := Option.some.inj hl
      simp only [oneLine_append, oneLine_ofList]
      exact ⟨by decide, ⟨⟨⟨hleft, by decide⟩, hsign⟩, by decide⟩, hright⟩
  next => cases hl

theorem oneLine_comparison? {w : List Char} : ∀ sign ∈ comparison? w, OneLine sign := by
  intro sign h
  unfold comparison? at h
  split at h <;> cases h <;> decide

theorem oneLine_sign {w : List Char} {sign : String}
    (h : Opcode.ofWord? w = some (.arithmetic sign)) : OneLine sign := by
  unfold Opcode.ofWord? at h
  split at h <;> cases h <;> decide

/-- What is shown for an instruction on one line is on one line. -/
theorem oneLine_lowerLine {line : String} (h : OneLine line) :
    ∀ l ∈ (lowerLine line).line?, OneLine l := by
  have hs : '\n' ∉ (ofLine line.toList).operands := fun hmem =>
    h ((stripTemporary_sublist _).subset ((ofCode_operands_sublist _).subset hmem))
  unfold lowerLine lower
  generalize ofLine line.toList = i at hs
  cases hop : Opcode.ofWord? i.opcode with
  | none => exact nofun
  | some op =>
      cases op with
      | call => exact oneLine_lowerCall hs
      | ret => exact oneLine_lowerReturn hs
      | arithmetic sign => exact oneLine_lowerBinary (oneLine_sign hop) hs
      | compare =>
          have hrest : '\n' ∉ (firstWord i.operands).2 := fun h =>
            hs ((firstWord_snd_sublist _).subset h)
          dsimp only
          unfold lowerCompare
          split
          next sign hsign => exact oneLine_lowerBinary (oneLine_comparison? sign hsign) hrest
          next => exact nofun
      | branch =>
          intro l hl
          cases hl
          decide
      | memory =>
          intro l hl
          cases hl
          decide
      | alloca =>
          intro l hl
          cases hl
          decide

end Instruction
end IrSurvey
