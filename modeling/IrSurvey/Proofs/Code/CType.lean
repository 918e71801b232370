import IrSurvey.Code.CType
import IrSurvey.Proofs.Text.Blank

/-!
C types of types with attributes. An attribute in front of a type changes nothing. Behind it, an
attribute takes the end of the text, and with it the sign of a pointer that is written with a star;
there only the words of the type count.
-/
namespace IrSurvey.CType
open Text

variable {w : List Char}

/-- The words by which a type is known. -/
def typeWords : List String :=
  ["i1", "i8", "i16", "i32", "i64", "float", "double", "void", "ptr"]

/-- A word that names no type and ends in no star. -/
structure IsAttribute (w : List Char) : Prop where
  ne_nil : w ≠ []
  noBlank : NoBlank w
  no_type : String.ofList w ∉ typeWords
  no_star : w.getLast? ≠ some '*'

instance (w : List Char) : Decidable (IsAttribute w) :=
  decidable_of_iff
    (w ≠ [] ∧ NoBlank w ∧ String.ofList w ∉ typeWords ∧ w.getLast? ≠ some '*')
    ⟨fun h => ⟨h.1, h.2.1, h.2.2.1, h.2.2.2⟩,
      fun h => ⟨h.ne_nil, h.noBlank, h.no_type, h.no_star⟩⟩

theorem ofWord?_eq_none (h : String.ofList w ∉ typeWords) : ofWord? w = none := by
  unfold ofWord?
  split
  case h_9 => rfl
  all_goals
    next he => exact absurd (he ▸ h) (by decide)

theorem IsAttribute.ofWord?_eq_none (h : IsAttribute w) : ofWord? w = none :=
  CType.ofWord?_eq_none h.no_type

theorem IsAttribute.ne_ptr (h : IsAttribute w) : w ≠ "ptr".toList := by
  rintro rfl
  exact absurd h.no_type (by decide)

theorem IsAttribute.words_eq (h : IsAttribute w) : words w = [w] :=
  words_eq_singleton h.ne_nil h.noBlank

/-- The C type that the words of a type stand for. -/
def ofWords (ws : List (List Char)) : String :=
  if "ptr".toList ∈ ws then "void*" else (ws.findSome? ofWord?).getD "int"

theorem ofType_eq (s : List Char) :
    ofType s = if (trim s).getLast? = some '*' then "void*" else ofWords (words s) := by
  simp only [ofType, isPointer, ofWords, Bool.or_eq_true, decide_eq_true_eq, List.contains_iff_mem]
  split
  next hpointer =>
      split
      next => rfl
      next hstar => rw [if_pos (hpointer.resolve_left hstar)]
  next hpointer =>
      rw [if_neg fun h => hpointer (.inl h), if_neg fun h => hpointer (.inr h)]

theorem ofWords_append_attribute_cons (hw : IsAttribute w) (us vs : List (List Char)) :
    ofWords (us ++ w :: vs) = ofWords (us ++ vs) := by
  have hmem : "ptr".toList ∈ us ++ w :: vs ↔ "ptr".toList ∈ us ++ vs := by
    rw [List.mem_append, List.mem_append, List.mem_cons, or_iff_right hw.ne_ptr.symm]
  simp only [ofWords, hmem, List.findSome?_append, List.findSome?_cons, hw.ofWord?_eq_none]

theorem ofWords_append_attributes {ws : List (List Char)} (hws : ∀ w ∈ ws, IsAttribute w)
    (us : List (List Char)) : ofWords (us ++ ws) = ofWords us := by
  induction ws with
  | nil => rw [List.append_nil]
  | cons w ws ih =>
      rw [ofWords_append_attribute_cons (hws w List.mem_cons_self)]
      exact ih fun v hv => hws v (List.mem_cons_of_mem w hv)

theorem ofWords_ne_pointer {ws : List (List Char)} (h : "ptr".toList ∉ ws) :
    ofWords ws ≠ "void*" := by
  rw [ofWords, if_neg h]
  cases hfind : ws.findSome? ofWord? with
  | none => decide
  | some type =>
      obtain ⟨w, -, hw⟩ := List.exists_of_findSome?_eq_some hfind
      unfold ofWord? at hw
      split at hw <;> cases hw <;> decide

/-! ## Attributes on either side -/

theorem isBlank_space : isBlank ' ' = true := by decide

/-- An attribute in front of a type has no part in it. -/
theorem ofType_attribute_append (hw : IsAttribute w) (s : List Char) :
    ofType (w ++ ' ' :: s) = ofType s := by
  have hstar : (trim (w ++ ' ' :: s)).getLast? = some '*' ↔ (trim s).getLast? = some '*' := by
    rw [getLast?_trim_append_cons isBlank_space, hw.noBlank.trim_eq]
    cases (trim s).getLast? with
    | none => simpa using hw.no_star
    | some c => rfl
  have hwords : ofWords (words (w ++ ' ' :: s)) = ofWords (words s) := by
    rw [words_append_cons isBlank_space, hw.words_eq]
    exact ofWords_append_attribute_cons hw [] (words s)
  simp only [ofType_eq, hstar, hwords]

/-- Behind an attribute only the words of a type count. -/
theorem ofType_append_attribute (hw : IsAttribute w) (s : List Char) :
    ofType (s ++ ' ' :: w) = ofWords (words s) := by
  have hstar : (trim (s ++ ' ' :: w)).getLast? ≠ some '*' := by
    rw [getLast?_trim_append_cons isBlank_space, hw.noBlank.trim_eq,
      List.getLast?_eq_some_getLast hw.ne_nil, Option.some_or,
      ← List.getLast?_eq_some_getLast hw.ne_nil]
    exact hw.no_star
  rw [ofType_eq, if_neg hstar, words_append_cons isBlank_space, hw.words_eq,
    ofWords_append_attribute_cons hw, List.append_nil]

/-- A type between attributes. -/
def attributed (front : List (List Char)) (s : List Char) (behind : List (List Char)) : List Char :=
  front.flatMap (· ++ [' ']) ++ (s ++ behind.flatMap (' ' :: ·))

theorem ofType_flatMap_append {front : List (List Char)} (hfront : ∀ w ∈ front, IsAttribute w)
    (s : List Char) : ofType (front.flatMap (· ++ [' ']) ++ s) = ofType s := by
  induction front with
  | nil => rfl
  | cons w front ih =>
      rw [List.flatMap_cons, List.append_assoc, List.append_assoc, List.singleton_append,
        ofType_attribute_append (hfront w List.mem_cons_self)]
      exact ih fun v hv => hfront v (List.mem_cons_of_mem w hv)

theorem words_append_flatMap {behind : List (List Char)} (h : ∀ w ∈ behind, IsAttribute w)
    (s : List Char) : words (s ++ behind.flatMap (' ' :: ·)) = words s ++ behind := by
  induction behind generalizing s with
  | nil => simp
  | cons w behind ih =>
      have hw := h w List.mem_cons_self
      have happ : s ++ (w :: behind).flatMap (' ' :: ·) =
          (s ++ ' ' :: w) ++ behind.flatMap (' ' :: ·) := by simp
      rw [happ, ih fun v hv => h v (List.mem_cons_of_mem w hv), words_append_cons isBlank_space,
        hw.words_eq, List.append_assoc, List.singleton_append]

theorem ofType_append_flatMap {behind : List (List Char)} (h : ∀ w ∈ behind, IsAttribute w)
    (hne : behind ≠ []) (s : List Char) :
    ofType (s ++ behind.flatMap (' ' :: ·)) = ofWords (words s) := by
  obtain ⟨vs, v, rfl⟩ := (List.eq_nil_or_concat behind).resolve_left hne
  have hvs : ∀ w ∈ vs, IsAttribute w := fun w hw => h w (by simp [hw])
  have hv : IsAttribute v := h v (by simp)
  rw [List.concat_eq_append, List.flatMap_append, List.flatMap_singleton, ← List.append_assoc,
    ofType_append_attribute hv, words_append_flatMap hvs, ofWords_append_attributes hvs]

/-- Attributes leave the C type of a type as it is, on whichever side they stand, unless the type is
a pointer by the star at its end only and attributes stand behind it. -/
theorem ofType_attributed_eq_iff {front behind : List (List Char)}
    (hfront : ∀ w ∈ front, IsAttribute w) (hbehind : ∀ w ∈ behind, IsAttribute w) (s : List Char) :
    ofType (attributed front s behind) = ofType s ↔
      (behind ≠ [] → (trim s).getLast? = some '*' → "ptr".toList ∈ words s) := by
  rw [attributed, ofType_flatMap_append hfront]
  by_cases hne : behind = []
  · simp [hne]
  · rw [ofType_append_flatMap hbehind hne, ofType_eq]
    split
    next hstar =>
        constructor
        · exact fun he _ _ => Classical.not_not.1 fun hptr => ofWords_ne_pointer hptr he
        · exact fun h => if_pos (h hne hstar)
    next hstar => exact ⟨fun _ _ h => absurd h hstar, fun _ => rfl⟩

/-- A star keeps its sense behind an attribute, and `ptr` on both sides of one. -/
theorem ofType_attributed_eq_iff_pointers :
    ((∀ w ∈ ["noundef".toList], IsAttribute w) ∧ (∀ w ∈ ["nonnull".toList], IsAttribute w)) ∧
      ofType (attributed ["noundef".toList] "i8*".toList []) = ofType "i8*".toList ∧
      ofType (attributed ["noundef".toList] "ptr".toList ["nonnull".toList]) =
        ofType "ptr".toList := by
  have hfront : ∀ w ∈ ["noundef".toList], IsAttribute w := by decide
  have hbehind : ∀ w ∈ ["nonnull".toList], IsAttribute w := by decide
  have hnone : ∀ w ∈ ([] : List (List Char)), IsAttribute w := nofun
  refine ⟨⟨hfront, hbehind⟩, ?_, ?_⟩
  · exact (ofType_attributed_eq_iff hfront hnone _).2 fun h => absurd rfl h
  · exact (ofType_attributed_eq_iff hfront hbehind _).2 fun _ _ => by decide

/-- A pointer to characters is no pointer any more in front of an attribute. -/
theorem not_forall_ofType_append_attribute :
    ¬ ∀ s w : List Char, IsAttribute w →
      ofType (s ++ ' ' :: w) = ofType s ∧ ofType (w ++ ' ' :: s) = ofType s := by
  intro h
  have hpointer := (h "i8*".toList "noundef".toList (by decide)).1
  exact absurd hpointer (by decide)

end IrSurvey.CType
