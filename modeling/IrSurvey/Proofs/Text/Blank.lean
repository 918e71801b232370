import Mathlib.Data.List.DropRight
import IrSurvey.Proofs.Text.Leading
import IrSurvey.Text.Blank
import IrSurvey.Text.Digit

/-!
Trimming and words. Trimming takes off blanks at the ends and nothing else; the words of a text that
is cut at a blank are those of its two parts, and everything else about words follows from that.
-/
namespace IrSurvey.Text

def AllBlank (s : List Char) : Prop :=
  ∀ c ∈ s, isBlank c = true

def NoBlank (s : List Char) : Prop :=
  ∀ c ∈ s, isBlank c = false

def FrontSolid (s : List Char) : Prop :=
  ∀ c ∈ s.head?, isBlank c = false

def BackSolid (s : List Char) : Prop :=
  ∀ c ∈ s.getLast?, isBlank c = false

instance (s : List Char) : Decidable (AllBlank s) :=
  List.decidableBAll (isBlank · = true) s

instance (s : List Char) : Decidable (NoBlank s) :=
  List.decidableBAll (isBlank · = false) s

variable {s g w : List Char}

/-- What holds of no blank is checked on the blanks one by one. -/
theorem eq_false_of_isBlank {p : Char → Bool}
    (h : ∀ n ∈ blankRanges.flatMap fun r => List.range' r.1 (r.2 - r.1 + 1),
      p (Char.ofNat n) = false)
    {c : Char} (hc : isBlank c = true) : p c = false := by
  obtain ⟨r, hr, hn⟩ := List.any_eq_true.1 hc
  obtain ⟨hlow, hhigh⟩ : r.1 ≤ c.toNat ∧ c.toNat ≤ r.2 := by simpa using hn
  have hmem : c.toNat ∈ blankRanges.flatMap fun r => List.range' r.1 (r.2 - r.1 + 1) :=
    List.mem_flatMap.2 ⟨r, hr, List.mem_range'_1.2 ⟨hlow, by omega⟩⟩
  simpa using h _ hmem

theorem isDigit_of_isBlank {c : Char} (hc : isBlank c = true) : isDigit c = false :=
  eq_false_of_isBlank (by decide +kernel) hc

theorem allBlank_space : AllBlank [' '] := by
  intro c hc
  rw [List.mem_singleton.1 hc]
  decide

theorem NoBlank.frontSolid (h : NoBlank s) : FrontSolid s :=
  fun c hc => h c (List.mem_of_mem_head? hc)

theorem NoBlank.backSolid (h : NoBlank s) : BackSolid s :=
  fun c hc => h c (List.mem_of_getLast? hc)

theorem frontSolid_append (hs : s ≠ []) : FrontSolid (s ++ w) ↔ FrontSolid s := by
  rw [FrontSolid, List.head?_append_of_ne_nil s hs]
  rfl

theorem backSolid_append (hw : w ≠ []) : BackSolid (s ++ w) ↔ BackSolid w := by
  rw [BackSolid, List.getLast?_append_of_ne_nil s hw]
  rfl

theorem eq_nil_of_allBlank_of_frontSolid (h : AllBlank s) (hf : FrontSolid s) : s = [] := by
  cases s with
  | nil => rfl
  | cons c s =>
      have hc := hf c rfl
      rw [h c List.mem_cons_self] at hc
      cases hc

theorem trimStart_append (h : AllBlank g) (s : List Char) : trimStart (g ++ s) = trimStart s :=
  List.dropWhile_append_of_pos h

theorem trimStart_eq_self (h : FrontSolid s) : trimStart s = s :=
  dropWhile_eq_self h

theorem trimStart_eq_nil_iff : trimStart s = [] ↔ AllBlank s :=
  List.dropWhile_eq_nil_iff

theorem frontSolid_trimStart (s : List Char) : FrontSolid (trimStart s) :=
  head?_dropWhile isBlank s

theorem exists_blank_trimStart (s : List Char) : ∃ g, AllBlank g ∧ s = g ++ trimStart s :=
  ⟨s.takeWhile isBlank, fun _ hc => List.mem_takeWhile_imp hc,
    List.takeWhile_append_dropWhile.symm⟩

theorem trimEnd_append (s : List Char) (h : AllBlank g) : trimEnd (s ++ g) = trimEnd s := by
  rw [trimEnd, List.reverse_append, List.dropWhile_append_of_pos]
  · rfl
  · intro c hc
    exact h c (List.mem_reverse.1 hc)

theorem trimEnd_eq_self_iff : trimEnd s = s ↔ BackSolid s := by
  refine List.rdropWhile_eq_self_iff.trans ⟨fun h c hc => ?_, fun h hs => ?_⟩
  · obtain ⟨hs, rfl⟩ := List.mem_getLast?_eq_getLast hc
    simpa using h hs
  · simp [h _ (List.getLast_mem_getLast? hs)]

theorem trimEnd_eq_nil_iff : trimEnd s = [] ↔ AllBlank s :=
  List.rdropWhile_eq_nil_iff

/-- What stands in front of a solid character stays. -/
theorem trimEnd_append_cons {c : Char} (hc : isBlank c = false) (s t : List Char) :
    trimEnd (s ++ c :: t) = s ++ c :: trimEnd t := by
  have hhead : ∀ a ∈ (c :: s.reverse).head?, isBlank a = false := by
    rintro a ⟨⟩
    exact hc
  have hrev : (s ++ c :: t).reverse = t.reverse ++ c :: s.reverse := by simp
  rw [trimEnd, trimEnd, hrev, dropWhile_append_of_head? hhead]
  simp

theorem backSolid_trimEnd (s : List Char) : BackSolid (trimEnd s) :=
  trimEnd_eq_self_iff.1 (List.rdropWhile_idempotent isBlank s)

theorem exists_blank_trimEnd (s : List Char) : ∃ g, AllBlank g ∧ s = trimEnd s ++ g :=
  ⟨s.rtakeWhile isBlank, fun _ hc => List.mem_rtakeWhile_imp hc,
    List.rdropWhile_append_rtakeWhile.symm⟩

theorem trim_append (s : List Char) (h : AllBlank g) : trim (s ++ g) = trim s := by
  by_cases hs : AllBlank s
  · rw [trim, trim, trimStart_append hs, trimStart_eq_nil_iff.2 h, trimStart_eq_nil_iff.2 hs]
  · have hne : trimStart s ≠ [] := fun he => hs (trimStart_eq_nil_iff.1 he)
    have he : trimStart (s ++ g) = trimStart s ++ g := by
      have hdrop : s.dropWhile isBlank ≠ [] := hne
      simp [trimStart, List.dropWhile_append, hdrop]
    rw [trim, trim, he, trimEnd_append _ h]

theorem trim_blank_append (h : AllBlank g) (s : List Char) : trim (g ++ s) = trim s := by
  rw [trim, trimStart_append h, ← trim]

theorem trim_eq_self (hf : FrontSolid s) (hb : BackSolid s) : trim s = s := by
  rw [trim, trimStart_eq_self hf, trimEnd_eq_self_iff.2 hb]

theorem trim_eq_nil_iff : trim s = [] ↔ AllBlank s := by
  rw [trim, trimEnd_eq_nil_iff]
  constructor
  · intro h
    exact trimStart_eq_nil_iff.1 (eq_nil_of_allBlank_of_frontSolid h (frontSolid_trimStart s))
  · intro h
    rw [trimStart_eq_nil_iff.2 h]
    exact fun _ hc => nomatch hc

theorem NoBlank.trim_eq (h : NoBlank s) : trim s = s :=
  trim_eq_self h.frontSolid h.backSolid

/-- Trimming leaves the last solid character at the end. -/
theorem getLast?_trim (s : List Char) : (trim s).getLast? = s.reverse.find? (!isBlank ·) := by
  obtain ⟨g, hg, hs⟩ := exists_blank_trimStart s
  have hfront : g.reverse.find? (!isBlank ·) = none := by
    simpa [AllBlank] using hg
  have hsolid : (trim s).getLast? = (trimStart s).reverse.find? (!isBlank ·) := by
    rw [trim, trimEnd, List.getLast?_reverse, List.find?_eq_head?_dropWhile_not]
    simp only [Bool.not_not]
  rw [hsolid]
  conv_rhs => rw [hs, List.reverse_append, List.find?_append, hfront, Option.or_none]

theorem getLast?_trim_append_cons {c : Char} (hc : isBlank c) (s t : List Char) :
    (trim (s ++ c :: t)).getLast? = (trim t).getLast?.or (trim s).getLast? := by
  have hblank : [c].find? (!isBlank ·) = none := by simp [hc]
  simp only [getLast?_trim, List.reverse_append, List.reverse_cons, List.find?_append, hblank,
    Option.or_none]

/-- Trimming takes off the blanks at both ends and nothing else. -/
theorem exists_blank_trim (s : List Char) :
    ∃ a b, AllBlank a ∧ AllBlank b ∧ s = a ++ (trim s ++ b) := by
  obtain ⟨a, ha, hs⟩ := exists_blank_trimStart s
  obtain ⟨b, hb, ht⟩ := exists_blank_trimEnd (trimStart s)
  exact ⟨a, b, ha, hb, by rw [trim, ← ht, ← hs]⟩

theorem frontSolid_trim (s : List Char) : FrontSolid (trim s) := by
  by_cases hne : trim s = []
  · rw [hne]
    exact nofun
  · obtain ⟨g, -, hg⟩ := exists_blank_trimEnd (trimStart s)
    have hsolid := frontSolid_trimStart s
    rw [hg] at hsolid
    exact (frontSolid_append hne).1 hsolid

theorem backSolid_trim (s : List Char) : BackSolid (trim s) :=
  backSolid_trimEnd (trimStart s)

@[simp] theorem trim_trim (s : List Char) : trim (trim s) = trim s :=
  trim_eq_self (frontSolid_trim s) (backSolid_trim s)

/-- A text that trimming leaves alone is solid at both ends. -/
theorem solid_of_trim_eq_self (h : trim s = s) : FrontSolid s ∧ BackSolid s :=
  ⟨h ▸ frontSolid_trim s, h ▸ backSolid_trim s⟩

theorem trimStart_append_of_ne_nil (h : trimStart s ≠ []) (t : List Char) :
    trimStart (s ++ t) = trimStart s ++ t :=
  (span_append_of_ne_nil h t).2

/-- It does not matter which end is trimmed first. -/
theorem trimStart_trimEnd (s : List Char) : trimStart (trimEnd s) = trimEnd (trimStart s) := by
  obtain ⟨g, hg, hs⟩ := exists_blank_trimStart s
  have hsolid : FrontSolid (trimStart s) := frontSolid_trimStart s
  generalize trimStart s = u at hs hsolid
  subst hs
  cases u with
  | nil => rw [List.append_nil, trimEnd_eq_nil_iff.2 hg]; rfl
  | cons c u =>
      have hc : isBlank c = false := hsolid c rfl
      have hu : trimEnd (c :: u) = c :: trimEnd u := trimEnd_append_cons hc [] u
      rw [trimEnd_append_cons hc, trimStart_append hg, hu]
      exact trimStart_eq_self fun a ha => hsolid a ha

theorem trim_eq_trimStart (h : BackSolid s) : trim s = trimStart s := by
  rw [trim, ← trimStart_trimEnd, trimEnd_eq_self_iff.2 h]

theorem trim_append_of_backSolid {t : List Char} (hs : BackSolid s) (hne : trim s ≠ [])
    (ht : BackSolid t) (htne : t ≠ []) : trim (s ++ t) = trim s ++ t := by
  rw [trim_eq_trimStart hs] at hne ⊢
  rw [trim, trimStart_append_of_ne_nil hne]
  exact trimEnd_eq_self_iff.2 ((backSolid_append htne).2 ht)

theorem head?_trim (h : FrontSolid s) : (trim s).head? = s.head? := by
  cases s with
  | nil => rfl
  | cons c s =>
      have hs : trimEnd (c :: s) = c :: trimEnd s := trimEnd_append_cons (h c rfl) [] s
      rw [trim, trimStart_eq_self h, hs]
      rfl

/-! ## Words -/

@[simp] theorem words_nil : words [] = [] := by
  simp [words]

theorem words_append_cons {c : Char} (hc : isBlank c) (s t : List Char) :
    words (s ++ c :: t) = words s ++ words t := by
  rw [words, List.splitOnP_append_cons s t hc, List.filter_append]
  rfl

theorem words_cons {c : Char} (hc : isBlank c) (s : List Char) : words (c :: s) = words s :=
  words_append_cons hc [] s

theorem words_blank_append (h : AllBlank g) (s : List Char) : words (g ++ s) = words s := by
  induction g with
  | nil => rfl
  | cons c g ih =>
      rw [List.cons_append, words_cons (h c List.mem_cons_self)]
      exact ih fun b hb => h b (List.mem_cons_of_mem c hb)

theorem words_append_blank (s : List Char) (h : AllBlank g) : words (s ++ g) = words s := by
  cases g with
  | nil => rw [List.append_nil]
  | cons c g =>
      have hg : AllBlank g := fun b hb => h b (List.mem_cons_of_mem c hb)
      have hw : words g = [] := by simpa using words_blank_append hg []
      rw [words_append_cons (h c List.mem_cons_self), hw, List.append_nil]

@[simp] theorem words_trim (s : List Char) : words (trim s) = words s := by
  obtain ⟨a, b, ha, hb, hs⟩ := exists_blank_trim s
  conv_rhs => rw [hs, words_blank_append ha, words_append_blank _ hb]

theorem words_eq_singleton (hne : w ≠ []) (h : NoBlank w) : words w = [w] := by
  rw [words, List.splitOnP_eq_singleton h]
  simp [hne]

theorem words_append_of_blank (hne : w ≠ []) (h : NoBlank w) {c : Char} (hc : isBlank c)
    (s : List Char) : words (w ++ c :: s) = w :: words s := by
  rw [words_append_cons hc, words_eq_singleton hne h]
  rfl

/-- The first word of a text is what stands before its first blank, if no blank is in front. -/
theorem words_of_frontSolid (hs : s ≠ []) (hf : FrontSolid s) :
    words s = s.takeWhile (!isBlank ·) :: words (s.dropWhile (!isBlank ·)) := by
  have hw : NoBlank (s.takeWhile (!isBlank ·)) := fun c hc => by
    simpa using List.mem_takeWhile_imp hc
  have hne : s.takeWhile (!isBlank ·) ≠ [] := by
    cases s with
    | nil => exact absurd rfl hs
    | cons c s => simp [hf c rfl]
  have happ : s = s.takeWhile (!isBlank ·) ++ s.dropWhile (!isBlank ·) :=
    List.takeWhile_append_dropWhile.symm
  cases hd : s.dropWhile (!isBlank ·) with
  | nil =>
      rw [hd, List.append_nil] at happ
      rw [words_nil, ← words_eq_singleton hne hw, ← happ]
  | cons c t =>
      have hc : isBlank c := by
        simpa using head?_dropWhile (!isBlank ·) s c (by rw [hd]; rfl)
      rw [words_cons hc, ← words_append_of_blank hne hw hc, ← hd, ← happ]

/-- If a second word follows, a blank ends the first, whatever comes after the text. -/
theorem takeWhile_append_of_words (hf : FrontSolid s) {v : List Char} {ws : List (List Char)}
    (hwords : words s = v :: w :: ws) (t : List Char) :
    (s ++ t).takeWhile (!isBlank ·) = v ∧ (s ++ t).dropWhile (!isBlank ·) ≠ [] := by
  have hs : s ≠ [] := by
    rintro rfl
    rw [words_nil] at hwords
    cases hwords
  rw [words_of_frontSolid hs hf] at hwords
  obtain ⟨rfl, htail⟩ := List.cons.inj hwords
  have hd : s.dropWhile (!isBlank ·) ≠ [] := by
    intro he
    rw [he, words_nil] at htail
    cases htail
  obtain ⟨c, u, hcu⟩ := List.exists_cons_of_ne_nil hd
  have hc : (!isBlank c) = false := head?_dropWhile (!isBlank ·) s c (by rw [hcu]; rfl)
  have hpos : ∀ b ∈ s.takeWhile (!isBlank ·), (!isBlank b) = true := fun b hb => by
    simpa using List.mem_takeWhile_imp hb
  have happ : s ++ t = s.takeWhile (!isBlank ·) ++ c :: (u ++ t) := by
    calc s ++ t = (s.takeWhile (!isBlank ·) ++ c :: u) ++ t := by
          rw [← eq_takeWhile_append_cons hcu]
      _ = _ := by simp
  rw [happ, takeWhile_append_cons hpos hc, dropWhile_append_cons hpos hc]
  exact ⟨rfl, List.cons_ne_nil _ _⟩

/-- The last word of a text, with the blanks after it, and the words before it. -/
theorem exists_last_word (h : ¬ AllBlank s) :
    ∃ a w b, s = a ++ w ++ b ∧ w ≠ [] ∧ NoBlank w ∧ AllBlank b ∧
      (∀ c ∈ a.getLast?, isBlank c = true) ∧ words s = words a ++ [w] := by
  obtain ⟨b, hb, hs⟩ := exists_blank_trimEnd s
  have hne : trimEnd s ≠ [] := fun he => h (trimEnd_eq_nil_iff.1 he)
  have hsolid : BackSolid (trimEnd s) := backSolid_trimEnd s
  generalize trimEnd s = u at hs hne hsolid
  subst hs
  have hu : u = u.rdropWhile (!isBlank ·) ++ u.rtakeWhile (!isBlank ·) :=
    List.rdropWhile_append_rtakeWhile.symm
  have hw : NoBlank (u.rtakeWhile (!isBlank ·)) := fun c hc => by
    simpa using List.mem_rtakeWhile_imp hc
  have hwne : u.rtakeWhile (!isBlank ·) ≠ [] := by
    intro he
    have hlast := List.rtakeWhile_eq_nil_iff.1 he hne
    exact hlast (by simp [hsolid _ (List.getLast_mem_getLast? hne)])
  have ha : ∀ c ∈ (u.rdropWhile (!isBlank ·)).getLast?, isBlank c = true := by
    intro c hc
    obtain ⟨hd, rfl⟩ := List.mem_getLast?_eq_getLast hc
    simpa using List.rdropWhile_last_not (!isBlank ·) u hd
  generalize u.rdropWhile (!isBlank ·) = a at hu ha
  generalize u.rtakeWhile (!isBlank ·) = w at hu hw hwne
  subst hu
  refine ⟨a, w, b, rfl, hwne, hw, hb, ha, ?_⟩
  rw [words_append_blank _ hb]
  cases hl : a.getLast? with
  | none =>
      obtain rfl := List.getLast?_eq_none_iff.1 hl
      exact words_eq_singleton hwne hw
  | some c =>
      obtain ⟨a', rfl⟩ := List.getLast?_eq_some_iff.1 hl
      have hc : isBlank c := ha c hl
      rw [List.append_assoc, List.singleton_append, words_append_cons hc,
        words_append_cons hc, words_nil, List.append_nil, words_eq_singleton hwne hw]

end IrSurvey.Text
