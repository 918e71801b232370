import IrSurvey.Listing.Parameter
import IrSurvey.Proofs.Text.Symbol
import IrSurvey.Proofs.Text.TopLevel

/-!
Parameter lists come back as they were printed. The name of a parameter is its last word, so a
local value inside its attributes is never taken for one, and only a type that itself ends in such
a word has to be printed with a name.
-/
namespace IrSurvey.Listing.Parameter
open Text

/-- The spelling of a local name. -/
def IsLocal (name : List Char) : Prop :=
  name ≠ [] ∧ ∀ c ∈ name, isLocalChar c = true

/-- The text ends in a blank, a percent sign and a local name. -/
def EndsInName (s : List Char) : Prop :=
  ∃ front c name, s = front ++ c :: '%' :: name ∧ isBlank c = true ∧ IsLocal name

/-- The type stands as one piece between commas, and the name, if there is one, as its last word. -/
structure Printable (p : Parameter) : Prop where
  type_ne_nil : p.type.toList ≠ []
  trim_type : trim p.type.toList = p.type.toList
  bracketDepth_type : bracketDepth p.type.toList = 0
  commasNested_type : CommasNested 0 p.type.toList
  isLocal_name : ∀ name ∈ p.name, IsLocal name.toList
  not_endsInName_type : p.name = none → ¬ EndsInName p.type.toList

/-- A parameter as it is written in a list. -/
def text (p : Parameter) : String :=
  match p.name with
  | some name => p.type ++ " %" ++ name
  | none => p.type

variable {p : Parameter} {s front w name : List Char} {c : Char}

/-! ## Names -/

theorem isLocalChar_of_isBlank (hc : isBlank c = true) : isLocalChar c = false := by
  have hhyphen : c ≠ '-' := by
    rintro rfl
    exact absurd hc (by decide)
  simp [isLocalChar, isSymbolChar_of_isBlank hc, hhyphen]

theorem isPlain_of_isLocalChar (hc : isLocalChar c = true) : IsPlain c := by
  refine ⟨?_, Bool.eq_false_iff.2 fun h => ?_, Bool.eq_false_iff.2 fun h => ?_⟩
  · rintro rfl
    exact absurd hc (by decide)
  · simp only [isOpening, Bool.or_eq_true, decide_eq_true_eq] at h
    rcases h with ((rfl | rfl) | rfl) | rfl <;> exact absurd hc (by decide)
  · simp only [isClosing, Bool.or_eq_true, decide_eq_true_eq] at h
    rcases h with ((rfl | rfl) | rfl) | rfl <;> exact absurd hc (by decide)

theorem IsLocal.noBlank (h : IsLocal name) : NoBlank ('%' :: name) := by
  refine List.forall_mem_cons.2 ⟨by decide, fun c hc => Bool.eq_false_iff.2 fun hblank => ?_⟩
  exact Bool.eq_false_iff.1 (isLocalChar_of_isBlank hblank) (h.2 c hc)

theorem IsLocal.newline_not_mem (h : IsLocal name) : '\n' ∉ name :=
  fun hmem => absurd (h.2 _ hmem) (by decide)

theorem bound?_eq_some_iff : bound? w = some name ↔ w = '%' :: name ∧ IsLocal name := by
  constructor
  · intro h
    unfold bound? at h
    split at h
    next rest =>
        split at h
        next hrest =>
            obtain rfl := Option.some.inj h
            exact ⟨rfl, hrest.1, List.all_eq_true.1 hrest.2⟩
        next => cases h
    next => cases h
  · rintro ⟨rfl, h⟩
    exact if_pos ⟨h.1, List.all_eq_true.2 h.2⟩

/-! ## The last blank -/

theorem noBlank_or_exists_last_blank (s : List Char) :
    NoBlank s ∨ ∃ front c w, s = front ++ c :: w ∧ isBlank c = true ∧ NoBlank w := by
  induction s with
  | nil => exact .inl nofun
  | cons a s ih =>
      rcases ih with hs | ⟨front, c, w, rfl, hc, hw⟩
      · cases ha : isBlank a with
        | true => exact .inr ⟨[], a, s, rfl, ha, hs⟩
        | false => exact .inl (List.forall_mem_cons.2 ⟨ha, hs⟩)
      · exact .inr ⟨a :: front, c, w, rfl, hc, hw⟩

/-- The last blank of a text is where the stretch without blanks at its end starts. -/
theorem span_reverse_append_cons (hc : isBlank c = true) (hw : NoBlank w) (front : List Char) :
    ((front ++ c :: w).reverse.takeWhile (!isBlank ·)).reverse = w ∧
      ((front ++ c :: w).reverse.dropWhile (!isBlank ·)).reverse = front ++ [c] := by
  have hrev : (front ++ c :: w).reverse = w.reverse ++ c :: front.reverse := by simp
  have hsolid : ∀ a ∈ w.reverse, (!isBlank a) = true := fun a ha => by
    simp [hw a (List.mem_reverse.1 ha)]
  have hblank : (!isBlank c) = false := by simp [hc]
  rw [hrev, takeWhile_append_cons hsolid hblank, dropWhile_append_cons hsolid hblank]
  simp

theorem ofPiece_of_noBlank (h : NoBlank s) :
    ofPiece s = { type := String.ofList s, name := none } := by
  have hdrop : s.reverse.dropWhile (!isBlank ·) = [] :=
    List.dropWhile_eq_nil_iff.2 fun a ha => by simp [h a (List.mem_reverse.1 ha)]
  simp only [ofPiece, hdrop, List.reverse_nil, if_true]
  split <;> rfl

theorem ofPiece_append_cons (hc : isBlank c = true) (hw : NoBlank w) (front : List Char) :
    ofPiece (front ++ c :: w) =
      match bound? w with
      | some name =>
        { type := String.ofList (trim front), name := some (String.ofList name) }
      | none => { type := String.ofList (front ++ c :: w), name := none } := by
  obtain ⟨htake, hdrop⟩ := span_reverse_append_cons hc hw front
  have hblank : AllBlank [c] := List.forall_mem_singleton.2 hc
  simp only [ofPiece, htake, hdrop, trim_append front hblank]
  cases bound? w with
  | some name => exact if_neg (by simp)
  | none => rfl

theorem isLocal_of_mem_name {n : String} (h : n ∈ (ofPiece s).name) : IsLocal n.toList := by
  rcases noBlank_or_exists_last_blank s with hs | ⟨front, c, w, rfl, hc, hw⟩
  · rw [ofPiece_of_noBlank hs] at h
    cases h
  · rw [ofPiece_append_cons hc hw] at h
    cases hbound : bound? w with
    | none =>
        rw [hbound] at h
        cases h
    | some name =>
        rw [hbound] at h
        obtain rfl := Option.some.inj h
        rw [String.toList_ofList]
        exact (bound?_eq_some_iff.1 hbound).2

/-- A piece is a type alone exactly if it does not end in a name. -/
theorem ofPiece_eq_type_iff :
    ofPiece s = { type := String.ofList s, name := none } ↔ ¬ EndsInName s := by
  rcases noBlank_or_exists_last_blank s with hs | ⟨front, c, w, rfl, hc, hw⟩
  · refine iff_of_true (ofPiece_of_noBlank hs) ?_
    rintro ⟨front, c, name, rfl, hc, -⟩
    simp [hs c (by simp)] at hc
  · rw [ofPiece_append_cons hc hw]
    cases hbound : bound? w with
    | some name =>
        obtain ⟨rfl, hname⟩ := bound?_eq_some_iff.1 hbound
        simp only [Parameter.mk.injEq, reduceCtorEq, and_false, false_iff, not_not]
        exact ⟨front, c, name, rfl, hc, hname⟩
    | none =>
        refine iff_of_true rfl ?_
        rintro ⟨front', c', name, he, hc', hname⟩
        have hlast := (span_reverse_append_cons hc' hname.noBlank front').1
        rw [← he, (span_reverse_append_cons hc hw front).1] at hlast
        rw [bound?_eq_some_iff.2 ⟨hlast, hname⟩] at hbound
        cases hbound

instance (s : List Char) : Decidable (EndsInName s) :=
  decidable_of_iff (¬ ofPiece s = { type := String.ofList s, name := none }) <| by
    rw [ofPiece_eq_type_iff, not_not]

/-! ## Printed parameters -/

instance (name : List Char) : Decidable (IsLocal name) :=
  decidable_of_iff (name ≠ [] ∧ name.all isLocalChar = true) (and_congr_right' List.all_eq_true)

instance (p : Parameter) : Decidable p.Printable :=
  decidable_of_iff
    (p.type.toList ≠ [] ∧ trim p.type.toList = p.type.toList ∧ bracketDepth p.type.toList = 0 ∧
      CommasNested 0 p.type.toList ∧ (∀ name ∈ p.name, IsLocal name.toList) ∧
      (p.name = none → ¬ EndsInName p.type.toList))
    ⟨fun ⟨h₁, h₂, h₃, h₄, h₅, h₆⟩ => ⟨h₁, h₂, h₃, h₄, h₅, h₆⟩,
      fun ⟨h₁, h₂, h₃, h₄, h₅, h₆⟩ => ⟨h₁, h₂, h₃, h₄, h₅, h₆⟩⟩

theorem toList_text_named (type name : String) :
    (text { type, name := some name }).toList = type.toList ++ ' ' :: '%' :: name.toList := by
  simp [text]

theorem ofPiece_text (h : p.Printable) : ofPiece p.text.toList = p := by
  obtain ⟨type, name⟩ := p
  cases name with
  | none =>
      have hnot : ¬ EndsInName type.toList := h.not_endsInName_type rfl
      simpa [text] using ofPiece_eq_type_iff.2 hnot
  | some name =>
      have hname : IsLocal name.toList := h.isLocal_name name rfl
      have htype : trim type.toList = type.toList := h.trim_type
      rw [toList_text_named, ofPiece_append_cons (by decide) hname.noBlank,
        bound?_eq_some_iff.2 ⟨rfl, hname⟩]
      simp [htype]

/-- A printed parameter is a piece of its own between commas. -/
theorem Printable.piece (h : p.Printable) :
    p.text.toList ≠ [] ∧ trim p.text.toList = p.text.toList ∧
      CommasNested 0 p.text.toList ∧ bracketDepth p.text.toList = 0 := by
  obtain ⟨type, name⟩ := p
  obtain ⟨hne, htrim, hdepth, hnested, hlocal, -⟩ := h
  dsimp only at hne htrim hdepth hnested hlocal
  cases name with
  | none => exact ⟨hne, htrim, hnested, hdepth⟩
  | some name =>
      have hname : IsLocal name.toList := hlocal name rfl
      have hplain : ∀ c ∈ ' ' :: '%' :: name.toList, IsPlain c :=
        List.forall_mem_cons.2 ⟨by decide, List.forall_mem_cons.2
          ⟨by decide, fun c hc => isPlain_of_isLocalChar (hname.2 c hc)⟩⟩
      have hback : BackSolid (' ' :: '%' :: name.toList) :=
        (backSolid_append (s := [' ']) (List.cons_ne_nil _ _)).2 hname.noBlank.backSolid
      rw [toList_text_named]
      refine ⟨List.append_ne_nil_of_left_ne_nil hne _, trim_eq_self ?_ ?_, ?_, ?_⟩
      · exact (frontSolid_append hne).2 (solid_of_trim_eq_self htrim).1
      · exact (backSolid_append (List.cons_ne_nil _ _)).2 hback
      · exact commasNested_append.2 ⟨hnested, commasNested_of_plain hplain⟩
      · rw [bracketDepth_append, hdepth, bracketDepth_of_plain hplain, Int.add_zero]

/-- A printed list of parameters is read back, whatever brackets its types hold and wherever names
are left out. -/
theorem all_text {ps : List Parameter} (h : ∀ p ∈ ps, p.Printable) :
    Parameter.all (", ".intercalate (ps.map text)).toList = ps := by
  have hpieces : ∀ s ∈ (ps.map text).map String.toList,
      s ≠ [] ∧ trim s = s ∧ CommasNested 0 s ∧ bracketDepth s = 0 := by
    rw [List.map_map]
    exact List.forall_mem_map.2 fun p hp => (h p hp).piece
  have hkept : ((ps.map text).map String.toList).filter (· ≠ []) =
      (ps.map text).map String.toList :=
    List.filter_eq_self.2 fun s hs => decide_eq_true (hpieces s hs).1
  calc Parameter.all (", ".intercalate (ps.map text)).toList
      = ((splitTopLevel ([',', ' '].intercalate ((ps.map text).map String.toList))).filter
          (· ≠ [])).map ofPiece := by
        rw [all, String.toList_intercalate]
        rfl
    _ = ((ps.map text).map String.toList).map ofPiece := by
        rw [splitTopLevel_comma_space hpieces, hkept]
    _ = ps.map fun p => ofPiece p.text.toList := by
        rw [List.map_map, List.map_map]
        rfl
    _ = ps := by
        rw [List.map_congr_left fun p hp => ofPiece_text (h p hp), List.map_id']

theorem all_text_mixed :
    let ps : List Parameter :=
      [⟨"ptr byval(%struct.S) align 8", some "0"⟩, ⟨"{ i32, [4 x <2 x i8>] }*", none⟩,
       ⟨"%T", none⟩, ⟨"i8 (i32, ptr %x)", none⟩, ⟨"void (i32, ...)*", some "f-1.é$"⟩]
    (∀ p ∈ ps, p.Printable) ∧ Parameter.all (", ".intercalate (ps.map text)).toList = ps := by
  intro ps
  have h : ∀ p ∈ ps, p.Printable := by decide +kernel
  exact ⟨h, all_text h⟩

end IrSurvey.Listing.Parameter
