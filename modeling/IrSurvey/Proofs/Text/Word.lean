import IrSurvey.Proofs.Text.Blank

/-!
The first and the last word of a text, and the places of all. A first word that is not the whole
text stays the first whatever follows, and blanks around the text have no part in either.
-/
namespace IrSurvey.Text

variable {s w : List Char} {c : Char}

/-! ## The first word -/

theorem firstWord_append_cons (hne : w ≠ []) (hw : NoBlank w) (hc : isBlank c = true)
    (s : List Char) : firstWord (w ++ c :: s) = (w, trimStart s) := by
  have hsolid : FrontSolid (w ++ c :: s) := (frontSolid_append hne).2 hw.frontSolid
  have hword : ∀ a ∈ w, (!isBlank a) = true := fun a ha => by simp [hw a ha]
  have hstop : (!isBlank c) = false := by simp [hc]
  have hblank : AllBlank [c] := List.forall_mem_singleton.2 hc
  rw [firstWord, trimStart_eq_self hsolid, takeWhile_append_cons hword hstop,
    dropWhile_append_cons hword hstop]
  exact congrArg (w, ·) (trimStart_append hblank s)

/-- Only blanks stand around the first word. -/
theorem exists_blank_firstWord (s : List Char) :
    ∃ g b, AllBlank g ∧ AllBlank b ∧ s = g ++ ((firstWord s).1 ++ (b ++ (firstWord s).2)) := by
  obtain ⟨g, hg, hs⟩ := exists_blank_trimStart s
  obtain ⟨b, hb, hrest⟩ := exists_blank_trimStart ((trimStart s).dropWhile (!isBlank ·))
  refine ⟨g, b, hg, hb, ?_⟩
  calc s = g ++ trimStart s := hs
    _ = g ++ ((trimStart s).takeWhile (!isBlank ·) ++ (trimStart s).dropWhile (!isBlank ·)) := by
        rw [List.takeWhile_append_dropWhile]
    _ = g ++ ((firstWord s).1 ++ (b ++ (firstWord s).2)) := by
        conv_lhs => rw [hrest]
        rfl

theorem firstWord_append (h : (firstWord s).2 ≠ []) (t : List Char) :
    firstWord (s ++ t) = ((firstWord s).1, (firstWord s).2 ++ t) := by
  have hrest : (trimStart s).dropWhile (!isBlank ·) ≠ [] := by
    intro he
    exact h (by rw [firstWord, he]; rfl)
  have hs : trimStart s ≠ [] := by
    intro he
    exact hrest (by rw [he]; rfl)
  obtain ⟨htake, hdrop⟩ := span_append_of_ne_nil hrest t
  rw [firstWord, trimStart_append_of_ne_nil hs, htake, hdrop]
  exact congrArg _ (trimStart_append_of_ne_nil h t)

/-- Trimming a text trims what stands behind its first word. -/
theorem firstWord_trim (s : List Char) :
    firstWord (trim s) = ((firstWord s).1, trimEnd (firstWord s).2) := by
  obtain ⟨b, hb, hu⟩ := exists_blank_trimEnd (trimStart s)
  have htrim : trimStart (trim s) = trim s := trimStart_eq_self (frontSolid_trim s)
  have hstop : ∀ c ∈ b.head?, (!isBlank c) = false := fun c hc => by
    simp [hb c (List.mem_of_mem_head? hc)]
  have htake : (trimStart s).takeWhile (!isBlank ·) = (trim s).takeWhile (!isBlank ·) := by
    conv_lhs => rw [hu, takeWhile_append_of_head? hstop]
    rfl
  have hdrop : (trimStart s).dropWhile (!isBlank ·) = (trim s).dropWhile (!isBlank ·) ++ b := by
    conv_lhs => rw [hu, dropWhile_append_of_head? hstop]
    rfl
  have hback : BackSolid ((trim s).dropWhile (!isBlank ·)) := by
    intro c hc
    obtain ⟨r, hr⟩ := List.dropWhile_suffix (l := trim s) (!isBlank ·)
    refine backSolid_trim s c ?_
    rw [← hr, List.getLast?_append, Option.mem_def.1 hc]
    rfl
  have hrest : trimStart ((trim s).dropWhile (!isBlank ·)) =
      trimEnd (trimStart ((trim s).dropWhile (!isBlank ·) ++ b)) := by
    rw [← trimStart_trimEnd, trimEnd_append _ hb, trimEnd_eq_self_iff.2 hback]
  rw [firstWord, firstWord, htrim, htake, hdrop, hrest]

/-! ## The last word -/

theorem lastWord_eq_self (hne : w ≠ []) (hw : NoBlank w) : lastWord w = w := by
  rw [lastWord, words_eq_singleton hne hw]
  rfl

theorem lastWord_append_cons (hne : w ≠ []) (hw : NoBlank w) (hc : isBlank c = true)
    (s : List Char) : lastWord (s ++ c :: w) = w := by
  rw [lastWord, words_append_cons hc, words_eq_singleton hne hw, List.getLast?_concat]
  rfl

@[simp] theorem lastWord_trim (s : List Char) : lastWord (trim s) = lastWord s := by
  rw [lastWord, lastWord, words_trim]

/-! ## The places of words -/

theorem words_append_of_getLast? {a : List Char} (ha : ∀ c ∈ a.getLast?, isBlank c = true)
    (s : List Char) : words (a ++ s) = words a ++ words s := by
  cases hl : a.getLast? with
  | none =>
      obtain rfl := List.getLast?_eq_none_iff.1 hl
      rfl
  | some c =>
      obtain ⟨a, rfl⟩ := List.getLast?_eq_some_iff.1 hl
      have hc : isBlank c = true := ha c hl
      rw [List.append_assoc, List.singleton_append, words_append_cons hc, words_append_cons hc,
        words_nil, List.append_nil]

theorem words_append_of_head? {b : List Char} (hb : ∀ c ∈ b.head?, isBlank c = true)
    (s : List Char) : words (s ++ b) = words s ++ words b := by
  cases b with
  | nil => simp
  | cons c b => rw [words_append_cons (hb c rfl), words_cons (hb c rfl)]

/-- A stretch without blanks is a word where blanks or the ends of the text are around it. -/
theorem mem_words_iff :
    w ∈ words s ↔ w ≠ [] ∧ NoBlank w ∧ ∃ a b, s = a ++ (w ++ b) ∧
      (∀ c ∈ a.getLast?, isBlank c = true) ∧ ∀ c ∈ b.head?, isBlank c = true := by
  constructor
  · -- the last word is cut off, so the induction is on the length of what stands in front of it
    induction hn : s.length using Nat.strong_induction_on generalizing s with
    | _ n ih =>
        intro hw
        by_cases hs : AllBlank s
        · have hwords : words s = [] := by simpa using words_append_blank [] hs
          rw [hwords] at hw
          cases hw
        obtain ⟨a, v, b, rfl, hv, hvsolid, hb, ha, hwords⟩ := exists_last_word hs
        have hbhead : ∀ c ∈ b.head?, isBlank c = true := fun c hc => hb c (List.mem_of_mem_head? hc)
        rw [hwords] at hw
        rcases List.mem_append.1 hw with hw | hw
        · have hlt : a.length < n := by
            have hpos := List.length_pos_iff.2 hv
            simp only [List.length_append] at hn
            omega
          obtain ⟨hne, hsolid, a', b', rfl, ha', hb'⟩ := ih a.length hlt rfl hw
          refine ⟨hne, hsolid, a', b' ++ v ++ b, by simp, ha', ?_⟩
          cases b' with
          | nil =>
              -- the word would reach up to a blank that ends the text in front of the last word
              obtain ⟨u, c, rfl⟩ := (List.eq_nil_or_concat w).resolve_left hne
              have hblank := ha c (by simp)
              rw [hsolid c (by simp)] at hblank
              cases hblank
          | cons c b' => exact hb'
        · obtain rfl := List.mem_singleton.1 hw
          exact ⟨hv, hvsolid, a, b, by simp, ha, hbhead⟩
  · rintro ⟨hne, hsolid, a, b, rfl, ha, hb⟩
    rw [words_append_of_getLast? ha, words_append_of_head? hb, words_eq_singleton hne hsolid]
    simp

end IrSurvey.Text
