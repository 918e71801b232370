import IrSurvey.Listing.Qualifier
import IrSurvey.Proofs.Text.Blank

/-!
Runs of qualifiers. What is dropped from the front of a text is a run of known words with a gap
after each, and it is the longest one: the rest does not start with another.
-/
namespace IrSurvey.Listing
open Text

/-- Known words with a gap after each. -/
inductive QualifierRun (gap : Char → Bool) (known : List Char → Bool) : List Char → Prop
  | nil : QualifierRun gap known []
  | cons {w g r : List Char} : known w → g ≠ [] → (∀ c ∈ g, gap c = true) →
      QualifierRun gap known r → QualifierRun gap known (w ++ g ++ r)

variable {gap : Char → Bool} {known : List Char → Bool} {s r : List Char}

theorem dropQualifiers_eq_self (h : known (s.takeWhile (!gap ·)) = false) :
    dropQualifiers gap known s = s := by
  rw [dropQualifiers]
  split
  · rfl
  · rw [h, if_neg Bool.false_ne_true]

theorem dropQualifiers_word {w : List Char} {c : Char} (hk : known w)
    (hw : ∀ c ∈ w, gap c = false) (hc : gap c) (s : List Char) :
    dropQualifiers gap known (w ++ c :: s) = dropQualifiers gap known (s.dropWhile gap) := by
  have hpos : ∀ c ∈ w, (!gap c) = true := fun c hc => by simp [hw c hc]
  have ht : (w ++ c :: s).takeWhile (!gap ·) = w := takeWhile_append_cons hpos (by simp [hc])
  have hd : (w ++ c :: s).dropWhile (!gap ·) = c :: s := dropWhile_append_cons hpos (by simp [hc])
  rw [dropQualifiers]
  split
  · next he => exact absurd (hd.symm.trans he) (by simp)
  · next d rest he =>
      obtain ⟨-, rfl⟩ : c = d ∧ s = rest := by simpa using hd.symm.trans he
      rw [ht, if_pos hk]

theorem QualifierRun.head?_append
    (hknown : ∀ w, known w → w ≠ [] ∧ ∀ c ∈ w, gap c = false) (hr : QualifierRun gap known r)
    (hs : ∀ c ∈ s.head?, gap c = false) : ∀ c ∈ (r ++ s).head?, gap c = false := by
  cases hr with
  | nil => exact hs
  | @cons w g r hw hg hgap hr =>
      obtain ⟨d, w, rfl⟩ := List.exists_cons_of_ne_nil (hknown w hw).1
      intro c hc
      obtain rfl : d = c := by simpa using hc
      exact (hknown _ hw).2 d List.mem_cons_self

/-- A run in front of a text that starts with no gap is dropped. -/
theorem QualifierRun.dropQualifiers_append
    (hknown : ∀ w, known w → w ≠ [] ∧ ∀ c ∈ w, gap c = false) (hr : QualifierRun gap known r)
    (hs : ∀ c ∈ s.head?, gap c = false) :
    dropQualifiers gap known (r ++ s) = dropQualifiers gap known s := by
  induction hr with
  | nil => rfl
  | @cons w g r hw hg hgap hr ih =>
      obtain ⟨c, g, rfl⟩ := List.exists_cons_of_ne_nil hg
      have hg' : ∀ c ∈ g, gap c = true := fun b hb => hgap b (List.mem_cons_of_mem c hb)
      calc dropQualifiers gap known (w ++ c :: g ++ r ++ s)
          = dropQualifiers gap known (w ++ c :: (g ++ (r ++ s))) := by simp
        _ = dropQualifiers gap known ((g ++ (r ++ s)).dropWhile gap) :=
            dropQualifiers_word hw (hknown w hw).2 (hgap c List.mem_cons_self) _
        _ = dropQualifiers gap known (r ++ s) := by
            rw [List.dropWhile_append_of_pos hg', dropWhile_eq_self (hr.head?_append hknown hs)]
        _ = dropQualifiers gap known s := ih

/-- What is dropped is a run. -/
theorem exists_run_dropQualifiers (gap : Char → Bool) (known : List Char → Bool)
    (s : List Char) : ∃ r, QualifierRun gap known r ∧ s = r ++ dropQualifiers gap known s := by
  fun_induction dropQualifiers gap known s with
  | case1 s hd => exact ⟨[], .nil, rfl⟩
  | case2 s c rest hd hk ih =>
      obtain ⟨r, hr, he⟩ := ih
      have hc : gap c := by
        simpa using head?_dropWhile (!gap ·) s c (by rw [hd]; rfl)
      refine ⟨s.takeWhile (!gap ·) ++ c :: rest.takeWhile gap ++ r,
        .cons hk (List.cons_ne_nil _ _) ?_ hr, ?_⟩
      · intro b hb
        rcases List.mem_cons.1 hb with rfl | hb
        · exact hc
        · exact List.mem_takeWhile_imp hb
      · calc s = s.takeWhile (!gap ·) ++ c :: rest := by
              rw [← hd, List.takeWhile_append_dropWhile]
          _ = s.takeWhile (!gap ·) ++ c :: (rest.takeWhile gap ++ rest.dropWhile gap) := by
              rw [List.takeWhile_append_dropWhile]
          _ = _ := by
              conv_lhs => rw [he]
              simp
  | case3 s c rest hd hk => exact ⟨[], .nil, rfl⟩

/-- The rest does not start with a known word and a gap. -/
theorem dropWhile_dropQualifiers
    (h : known ((dropQualifiers gap known s).takeWhile (!gap ·))) :
    (dropQualifiers gap known s).dropWhile (!gap ·) = [] := by
  fun_induction dropQualifiers gap known s with
  | case1 s hd => exact hd
  | case2 s c rest hd hk ih => exact ih h
  | case3 s c rest hd hk => exact absurd h hk

theorem head?_dropQualifiers (hs : ∀ c ∈ s.head?, gap c = false) :
    ∀ c ∈ (dropQualifiers gap known s).head?, gap c = false := by
  fun_induction dropQualifiers gap known s with
  | case1 s hd => exact hs
  | case2 s c rest hd hk ih => exact ih (head?_dropWhile gap rest)
  | case3 s c rest hd hk => exact hs

/-- Words without a newline are dropped from the line at the front only. -/
theorem dropQualifiers_append_newline (hgap : gap '\n' = false)
    (hknown : ∀ w, known w → '\n' ∉ w) (s t : List Char) :
    dropQualifiers gap known (s ++ '\n' :: t) = dropQualifiers gap known s ++ '\n' :: t := by
  have hstop : ∀ c ∈ ('\n' :: t).head?, gap c = false := forall_head?_cons hgap
  fun_induction dropQualifiers gap known s with
  | case1 s hd =>
      -- the word at the front runs over the newline
      have hword : (s ++ '\n' :: t).takeWhile (!gap ·) = s ++ '\n' :: t.takeWhile (!gap ·) := by
        rw [List.takeWhile_append_of_pos (List.dropWhile_eq_nil_iff.1 hd),
          List.takeWhile_cons_of_pos (by simp [hgap])]
      refine dropQualifiers_eq_self (Bool.eq_false_iff.2 fun hk => hknown _ hk ?_)
      rw [hword]
      exact List.mem_append_right _ List.mem_cons_self
  | case2 s c rest hd hk ih =>
      have hc : gap c = true := by
        simpa using head?_dropWhile (!gap ·) s c (by rw [hd]; rfl)
      have hw : ∀ c ∈ s.takeWhile (!gap ·), gap c = false := fun c hc => by
        simpa using List.mem_takeWhile_imp hc
      have hs : s ++ '\n' :: t = s.takeWhile (!gap ·) ++ c :: (rest ++ '\n' :: t) := by
        conv_lhs => rw [eq_takeWhile_append_cons hd]
        simp
      rw [hs, dropQualifiers_word hk hw hc, dropWhile_append_of_head? hstop, ih]
  | case3 s c rest hd hk =>
      have hword := (span_append_of_ne_nil (p := (!gap ·)) (by rw [hd]; simp) ('\n' :: t)).1
      exact dropQualifiers_eq_self (by rw [hword]; exact Bool.eq_false_iff.2 hk)

/-! ## Header qualifiers -/

theorem isHeaderQualifier_spelling {w : List Char} (h : isHeaderQualifier w) :
    w ≠ [] ∧ NoBlank w ∧ '@' ∉ w := by
  have hall : ∀ q ∈ headerQualifiers,
      q.toList ≠ [] ∧ (q.toList.all fun c => !isBlank c) = true ∧ '@' ∉ q.toList := by
    decide
  simpa [NoBlank] using hall (String.ofList w) (List.contains_iff_mem.1 h)

/-- Header qualifiers are words. -/
theorem isHeaderQualifier_word : ∀ w, isHeaderQualifier w → w ≠ [] ∧ NoBlank w :=
  fun _ h => ⟨(isHeaderQualifier_spelling h).1, (isHeaderQualifier_spelling h).2.1⟩

theorem QualifierRun.isHeaderQualifier_of_mem_words
    (hr : QualifierRun isBlank isHeaderQualifier r) : ∀ q ∈ words r, isHeaderQualifier q := by
  induction hr with
  | nil => simp
  | @cons w g r hw hg hgap hr ih =>
      obtain ⟨hne, hsolid⟩ := isHeaderQualifier_word w hw
      obtain ⟨c, g, rfl⟩ := List.exists_cons_of_ne_nil hg
      have hg' : AllBlank g := fun b hb => hgap b (List.mem_cons_of_mem c hb)
      intro q hq
      rw [List.append_assoc, List.cons_append,
        words_append_of_blank hne hsolid (hgap c List.mem_cons_self),
        words_blank_append hg', List.mem_cons] at hq
      rcases hq with rfl | hq
      · exact hw
      · exact ih q hq

theorem QualifierRun.getLast?_blank (hr : QualifierRun isBlank isHeaderQualifier r) :
    ∀ c ∈ r.getLast?, isBlank c = true := by
  induction hr with
  | nil => simp
  | @cons w g r hw hg hgap hr ih =>
      intro c hc
      by_cases hr : r = []
      · subst hr
        rw [List.append_nil, List.getLast?_append_of_ne_nil w hg] at hc
        exact hgap c (List.mem_of_mem_getLast? hc)
      · rw [List.getLast?_append_of_ne_nil _ hr] at hc
        exact ih c hc

end IrSurvey.Listing
