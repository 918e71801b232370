import IrSurvey.Proofs.Marker.Counts
import IrSurvey.Proofs.Text.Place

/-!
The marks that a count is made of. No word of a technique starts inside another, so words that are
sought one behind the other are as many as the places where one starts.
-/
namespace IrSurvey.Mark
open Text

variable {m : Mark} {marks : List Mark} {s r : List Char}

/-! ## The marks that are found -/

def isPhrase : Mark → Bool
  | .word _ _ => false
  | .phrase _ _ _ => true

/-- The word that a mark starts with. -/
def opening : Mark → List Char
  | .word w _ => w.toList
  | .phrase first _ _ => first.toList

/-- The mark at the front of a text, and the text after it. -/
def front? (marks : List Mark) (s : List Char) : Option (Mark × List Char) :=
  marks.findSome? fun m => (m.after? s).map (m, ·)

theorem front?_eq_some (h : front? marks s = some (m, r)) : m ∈ marks ∧ m.after? s = some r := by
  obtain ⟨n, hn, hread⟩ := List.exists_of_findSome?_eq_some h
  obtain ⟨q, hq, he⟩ := Option.map_eq_some_iff.1 hread
  obtain ⟨rfl, rfl⟩ := Prod.mk.inj he
  exact ⟨hn, hq⟩

theorem map_snd_front? (marks : List Mark) (s : List Char) :
    (front? marks s).map Prod.snd = marks.findSome? (·.after? s) := by
  rw [front?, List.map_findSome?]
  congr 1
  funext m
  simp [Function.comp_def]

/-- The marks that are counted, from left to right. -/
def found (marks : List Mark) (s : List Char) : List Mark :=
  match _h : front? marks s with
  | some (m, r) => m :: found marks r
  | none =>
    match s with
    | [] => []
    | _ :: s => found marks s
termination_by s.length
decreasing_by
  · exact length_after?_lt (front?_eq_some _h).2
  · exact Nat.lt_succ_self _

theorem length_found (marks : List Mark) (s : List Char) :
    (found marks s).length = count marks s := by
  fun_induction found marks s with
  | case1 s m r hfront ih =>
      have h := map_snd_front? marks s
      rw [hfront] at h
      rw [List.length_cons, ih, count_of_eq_some h.symm]
  | case2 => exact (count_nil marks).symm
  | case3 c s hfront ih =>
      have h := map_snd_front? marks (c :: s)
      rw [hfront] at h
      rw [ih, count_cons_of_eq_none h.symm]

/-! ## Words only -/

/-- Words that are apart are as many as the places where one starts. -/
theorem count_eq_length_places (hwords : ∀ m ∈ marks, m.isPhrase = false)
    (hapart : ∀ m ∈ marks, ∀ v ∈ marks.map opening, Apart m.opening v) (s : List Char) :
    count marks s = (places (marks.map opening) s).length := by
  induction s using search_induction marks with
  | found s r hs ih =>
      obtain ⟨m, hm, hafter⟩ := List.exists_of_findSome?_eq_some hs
      cases m with
      | word w hw =>
          obtain rfl := isPrefixOf?_eq_some_iff.1 hafter
          have hplaces : places (marks.map opening) (w.toList ++ r) = 0 :: _ :=
            places_word_append (List.mem_map_of_mem hm) hw (hapart _ hm) r
          rw [count_of_eq_some hs, ih, hplaces, List.length_cons, List.length_map]
      | phrase => cases hwords _ hm
  | nil => exact count_nil marks
  | skip c s hs ih =>
      have hnone : ¬ StartsWith (marks.map opening) (c :: s) := by
        rintro ⟨v, hv, r, hr⟩
        obtain ⟨m, hm, rfl⟩ := List.mem_map.1 hv
        cases m with
        | word w hw =>
            have hafter := List.findSome?_eq_none_iff.1 hs _ hm
            cases hafter.symm.trans (isPrefixOf?_eq_some_iff.2 hr.symm)
        | phrase => cases hwords _ hm
      rw [count_cons_of_eq_none hs, ih, places_cons, if_neg hnone]
      simp

end IrSurvey.Mark
