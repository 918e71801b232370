import IrSurvey.Proofs.Code.CType
import IrSurvey.Proofs.Text.Bracket
import IrSurvey.Proofs.Text.Word

/-!
C types of literal structs, arrays and vectors. None of them has a C type of its own, but the words
of the whole text are looked through, brackets and all. An element that touches a bracket or a comma
is a part of another word and passed over; one that stands between blanks is taken for the type
itself. So `int` stands for an aggregate exactly if no `ptr` stands between blanks, and the first
element there that names a type, if there is one, is an `i32`.
-/
namespace IrSurvey.CType
open Text

variable {s w : List Char} {ws : List (List Char)}

/-- The brackets of structs, arrays and vectors. -/
def aggregateBrackets : List (Char × Char) :=
  [('{', '}'), ('[', ']'), ('<', '>')]

/-- A text from a bracket to the one that closes it. -/
def IsAggregate (s : List Char) : Prop :=
  ∃ p ∈ aggregateBrackets, ∃ inner, s = p.1 :: (inner ++ [p.2]) ∧ Balanced p.1 p.2 inner

/-- The words that name a type. -/
def typeNames (ws : List (List Char)) : List (List Char) :=
  ws.filter fun w => String.ofList w ∈ typeWords

theorem mem_typeNames : w ∈ typeNames ws ↔ w ∈ ws ∧ String.ofList w ∈ typeWords := by
  simp [typeNames]

/-- Of the words that name a type other than a pointer, only `i32` stands for `int`. -/
theorem ofWord?_eq_some_int_iff (hw : String.ofList w ∈ typeWords) (hptr : w ≠ "ptr".toList) :
    (ofWord? w).isSome = true ∧ (ofWord? w = some "int" ↔ w = "i32".toList) := by
  have hall : ∀ v ∈ typeWords, v.toList ≠ "ptr".toList → (ofWord? v.toList).isSome = true ∧
      (ofWord? v.toList = some "int" ↔ v.toList = "i32".toList) := by decide
  have hword := hall _ hw
  rw [String.toList_ofList] at hword
  exact hword hptr

/-- The first word that names a type decides. -/
theorem ofWords_eq_int_iff :
    ofWords ws = "int" ↔
      "ptr".toList ∉ ws ∧ ∀ w ∈ (typeNames ws).head?, w = "i32".toList := by
  by_cases hptr : "ptr".toList ∈ ws
  · have hpointer : ("void*" : String) ≠ "int" := by decide
    rw [ofWords, if_pos hptr]
    exact iff_of_false hpointer fun h => h.1 hptr
  · rw [ofWords, if_neg hptr, and_iff_right hptr]
    induction ws with
    | nil => simp [typeNames]
    | cons w ws ih =>
        obtain ⟨hne, hrest⟩ := not_or.1 (fun h => hptr (List.mem_cons.2 h))
        by_cases hw : String.ofList w ∈ typeWords
        · obtain ⟨hsome, hint⟩ := ofWord?_eq_some_int_iff hw (Ne.symm hne)
          obtain ⟨type, htype⟩ := Option.isSome_iff_exists.1 hsome
          rw [typeNames, List.filter_cons_of_pos (by simpa using hw), List.findSome?_cons, htype]
          rw [htype] at hint
          simpa using hint
        · rw [typeNames, List.filter_cons_of_neg (by simpa using hw), List.findSome?_cons,
            ofWord?_eq_none hw]
          exact ih hrest

/-! ## Names between blanks -/

/-- The type names among the words of an aggregate are those between blanks: its own brackets are at
both ends, and no name starts or ends with one. -/
theorem mem_typeNames_words_iff (h : IsAggregate s) :
    w ∈ typeNames (words s) ↔ String.ofList w ∈ typeWords ∧
      ∃ a x y b, s = a ++ x :: (w ++ y :: b) ∧ isBlank x = true ∧ isBlank y = true := by
  have hname : ∀ v ∈ typeWords, v.toList ≠ [] ∧ NoBlank v.toList ∧
      (∀ p ∈ aggregateBrackets, v.toList.head? ≠ some p.1 ∧ v.toList.getLast? ≠ some p.2) := by
    decide
  obtain ⟨p, hp, inner, hs, -⟩ := h
  rw [mem_typeNames, and_comm, mem_words_iff]
  refine and_congr_right fun hw => ?_
  have hword := hname _ hw
  rw [String.toList_ofList] at hword
  obtain ⟨hne, hsolid, hends⟩ := hword
  constructor
  · rintro ⟨-, -, a, b, hab, ha, hb⟩
    have hfront : a ≠ [] := by
      rintro rfl
      refine (hends p hp).1 ?_
      rw [List.nil_append] at hab
      rw [← List.head?_append_of_ne_nil w hne, ← hab, hs]
      rfl
    have hback : b ≠ [] := by
      rintro rfl
      refine (hends p hp).2 ?_
      rw [List.append_nil] at hab
      rw [← List.getLast?_append_of_ne_nil a hne, ← hab, hs, ← List.cons_append,
        List.getLast?_concat]
    obtain ⟨a, x, rfl⟩ := (List.eq_nil_or_concat a).resolve_left hfront
    obtain ⟨y, b, rfl⟩ := List.exists_cons_of_ne_nil hback
    exact ⟨a, x, y, b, by simpa using hab, ha x (by simp), hb y rfl⟩
  · rintro ⟨a, x, y, b, hab, hx, hy⟩
    refine ⟨hne, hsolid, a ++ [x], y :: b, by simpa using hab, ?_, ?_⟩
    · intro c hc
      rw [List.getLast?_concat] at hc
      exact Option.some.inj hc ▸ hx
    · intro c hc
      exact Option.some.inj hc ▸ hy

/-- An aggregate ends in a bracket and not in a star. -/
theorem ofType_aggregate (h : IsAggregate s) : ofType s = ofWords (words s) := by
  obtain ⟨p, hp, inner, rfl, -⟩ := h
  have hbracket : ∀ p ∈ aggregateBrackets, isBlank p.2 = false ∧ p.2 ≠ '*' := by decide
  obtain ⟨hblank, hstar⟩ := hbracket p hp
  have hlast : (trim (p.1 :: (inner ++ [p.2]))).getLast? = some p.2 := by
    rw [getLast?_trim, ← List.cons_append, List.reverse_append, List.reverse_singleton,
      List.singleton_append, List.find?_cons_of_pos (by simp [hblank])]
  rw [ofType_eq, hlast, if_neg]
  exact fun he => hstar (Option.some.inj he)

/-- An aggregate has the C type `int` exactly if no `ptr` stands between blanks in it, and the first
type that does, if any, is `i32`. The types between blanks are the words that name one. -/
theorem ofType_aggregate_eq_int_iff (h : IsAggregate s) :
    (∀ w, w ∈ typeNames (words s) ↔ String.ofList w ∈ typeWords ∧
      ∃ a x y b, s = a ++ x :: (w ++ y :: b) ∧ isBlank x = true ∧ isBlank y = true) ∧
    (ofType s = "int" ↔ "ptr".toList ∉ typeNames (words s) ∧
      ∀ w ∈ (typeNames (words s)).head?, w = "i32".toList) := by
  refine ⟨fun w => mem_typeNames_words_iff h, ?_⟩
  have hptr : "ptr".toList ∈ typeNames (words s) ↔ "ptr".toList ∈ words s :=
    mem_typeNames.trans (and_iff_left (by decide))
  rw [ofType_aggregate h, ofWords_eq_int_iff, hptr]

/-- Nothing stands between blanks in a vector of longs, and only `i32` does in a struct that ends
with one. -/
theorem ofType_aggregate_eq_int_iff_elements :
    (IsAggregate "<4 x i64>".toList ∧ ofType "<4 x i64>".toList = "int") ∧
      IsAggregate "\x7b i64, [2 x ptr], i32 \x7d".toList ∧
      ofType "\x7b i64, [2 x ptr], i32 \x7d".toList = "int" := by
  have hvector : IsAggregate "<4 x i64>".toList :=
    ⟨('<', '>'), by decide, "4 x i64".toList, by decide, by decide⟩
  have hstruct : IsAggregate "\x7b i64, [2 x ptr], i32 \x7d".toList :=
    ⟨('{', '}'), by decide, " i64, [2 x ptr], i32 ".toList, by decide, by decide⟩
  exact ⟨⟨hvector, (ofType_aggregate_eq_int_iff hvector).2.2 (by decide)⟩,
    hstruct, (ofType_aggregate_eq_int_iff hstruct).2.2 (by decide)⟩

/-- The last element of a struct stands between blanks and lends it its C type. -/
theorem not_forall_ofType_aggregate : ¬ ∀ s, IsAggregate s → ofType s = "int" := by
  intro h
  have hstruct := h "\x7b i32, i64 \x7d".toList
    ⟨('{', '}'), by decide, " i32, i64 ".toList, by decide, by decide⟩
  exact absurd hstruct (by decide)

end IrSurvey.CType
