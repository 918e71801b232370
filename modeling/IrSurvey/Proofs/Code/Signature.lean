import Mathlib.Data.List.Nodup
import IrSurvey.Code.Source
import IrSurvey.Proofs.Text.Digit

/-!
The parameter names of a signature. A parameter without a name takes one from its position, and the
names that are bound may use the same words; the names that are shown are distinct exactly if the
bound ones are and none of them is the name of an unnamed position.
-/
namespace IrSurvey.Code
open Listing (Function Parameter)

/-- The name of an unnamed parameter at some position. -/
def positional (i : Nat) : String :=
  "arg" ++ toString i

def shownName (p : Parameter) (i : Nat) : String :=
  p.name.getD (positional i)

/-- The parameter names of a signature, in order. -/
def shownNames (f : Function) : List String :=
  f.parameters.zipIdx.map fun q => shownName q.1 q.2

def boundNames (f : Function) : List String :=
  f.parameters.filterMap (·.name)

def unnamedPositions (f : Function) : List Nat :=
  (f.parameters.zipIdx.filter (·.1.name = none)).map Prod.snd

def positionalNames (f : Function) : List String :=
  (unnamedPositions f).map positional

/-- Decimal spellings are distinct. -/
theorem toString_injective : Function.Injective (toString : Nat → String) := by
  intro m n h
  have hdigits : Nat.toDigits 10 m = Nat.toDigits 10 n := by
    rw [← Text.toList_toString, ← Text.toList_toString, h]
  rw [← Nat.ofDigitChars_ten_toDigits (n := m), hdigits, Nat.ofDigitChars_ten_toDigits]

theorem positional_injective : Function.Injective positional := by
  intro i j h
  have hlist : "arg".toList ++ (toString i).toList = "arg".toList ++ (toString j).toList := by
    simpa only [positional, String.toList_append] using congrArg String.toList h
  exact toString_injective (String.toList_inj.1 (List.append_cancel_left hlist))

theorem nodup_unnamedPositions (f : Function) : (unnamedPositions f).Nodup := by
  have hall : (f.parameters.zipIdx.map Prod.snd).Nodup := by
    rw [List.zipIdx_map_snd]
    exact List.nodup_range'
  exact hall.sublist (List.filter_sublist.map Prod.snd)

theorem nodup_positionalNames (f : Function) : (positionalNames f).Nodup :=
  (nodup_unnamedPositions f).map positional_injective

/-- The names that are shown are the bound ones and those of the unnamed positions. -/
theorem shownNames_perm (f : Function) :
    (shownNames f).Perm (boundNames f ++ positionalNames f) := by
  unfold shownNames boundNames positionalNames unnamedPositions
  -- the induction runs over the parameters from any position on
  generalize f.parameters = ps
  generalize 0 = k
  induction ps generalizing k with
  | nil => exact .refl []
  | cons p ps ih =>
      rw [List.zipIdx_cons, List.map_cons]
      change (shownName p k :: _).Perm _
      cases hname : p.name with
      | none =>
          have hshown : shownName p k = positional k := by simp [shownName, hname]
          rw [List.filterMap_cons_none hname, List.filter_cons_of_pos (by simpa using hname),
            List.map_cons, List.map_cons, hshown]
          exact ((ih (k + 1)).cons (positional k)).trans List.perm_middle.symm
      | some name =>
          have hshown : shownName p k = name := by simp [shownName, hname]
          rw [List.filterMap_cons_some hname, List.filter_cons_of_neg (by simp [hname]), hshown]
          exact (ih (k + 1)).cons name

/-- A signature lists each parameter with its shown name behind its C type. -/
theorem signature_eq (f : Function) :
    signature f = CType.ofType f.returnType.toList ++ " " ++ f.name ++ "(" ++
      ", ".intercalate (List.zipWith (fun p name => CType.ofType p.type.toList ++ " " ++ name)
        f.parameters (shownNames f)) ++ ")" := by
  have hparameters : ∀ (ps : List Parameter) k,
      (ps.zipIdx k).map (fun q => parameterText q.1 q.2) =
        List.zipWith (fun p name => CType.ofType p.type.toList ++ " " ++ name) ps
          ((ps.zipIdx k).map fun q => shownName q.1 q.2) := by
    intro ps
    induction ps with
    | nil => exact fun _ => rfl
    | cons p ps ih =>
        intro k
        rw [List.zipIdx_cons, List.map_cons, List.map_cons, List.zipWith_cons_cons, ih (k + 1)]
        rfl
  rw [shownNames, ← hparameters f.parameters 0]
  rfl

/-- The names that a signature shows are distinct exactly if the bound names are, and none of them
is the name that an unnamed parameter takes from its position. -/
theorem nodup_shownNames_iff (f : Function) :
    signature f = CType.ofType f.returnType.toList ++ " " ++ f.name ++ "(" ++
        ", ".intercalate (List.zipWith (fun p name => CType.ofType p.type.toList ++ " " ++ name)
          f.parameters (shownNames f)) ++ ")" ∧
      ((shownNames f).Nodup ↔
        (boundNames f).Nodup ∧ (boundNames f).Disjoint (positionalNames f)) := by
  refine ⟨signature_eq f, ?_⟩
  rw [(shownNames_perm f).nodup_iff, List.nodup_append']
  exact and_congr_right fun _ => and_iff_right (nodup_positionalNames f)

/-- A bound name may be the one that the next parameter takes from its position. -/
theorem not_forall_nodup_shownNames :
    ¬ ∀ f : Function, (boundNames f).Nodup → (shownNames f).Nodup := by
  intro h
  have hnames := h {
    name := "f"
    returnType := "void"
    parameters := [{ type := "i32", name := some "arg1" }, { type := "ptr", name := none }]
    instructions := []
    labels := [] } (by decide)
  exact absurd hnames (by decide)

end IrSurvey.Code
