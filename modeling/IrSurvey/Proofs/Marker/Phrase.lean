import IrSurvey.Proofs.Marker.Found

/-!
Phrases on a line. A phrase takes up what stands between the first opening word of the line and the
last closing word, so there is one at most, and only the further words outside it count.
-/
namespace IrSurvey
open Text

variable {w s t r : List Char}

/-! ## The last occurrence on a line -/

theorem afterLast?_eq_none (hline : '\n' ∉ s) (h : afterLast? w s = none) : places [w] s = [] := by
  induction s with
  | nil => rfl
  | cons c s ih =>
      have hc : c ≠ '\n' := fun he => hline (he ▸ List.mem_cons_self)
      rw [afterLast?, if_neg hc] at h
      split at h
      next => cases h
      next hs =>
          have hfront : ¬ StartsWith [w] (c :: s) := by
            rw [startsWith_singleton]
            rintro ⟨r, hr⟩
            cases h.symm.trans (isPrefixOf?_eq_some_iff.2 hr.symm)
          rw [places_cons, if_neg hfront, ih (List.not_mem_of_not_mem_cons hline) hs]
          rfl

theorem afterLast?_eq_some (hw : w ≠ []) (hline : '\n' ∉ s) (h : afterLast? w s = some r) :
    ∃ u, s = u ++ (w ++ r) ∧ (places [w] s).getLast? = some u.length ∧ places [w] r = [] := by
  induction s with
  | nil => exact absurd (List.append_eq_nil_iff.1 (isPrefixOf?_eq_some_iff.1 h).symm).1 hw
  | cons c s ih =>
      have hc : c ≠ '\n' := fun he => hline (he ▸ List.mem_cons_self)
      have hs : '\n' ∉ s := List.not_mem_of_not_mem_cons hline
      rw [afterLast?, if_neg hc] at h
      split at h
      next q hq =>
          obtain rfl := Option.some.inj h
          obtain ⟨u, rfl, hlast, hrest⟩ := ih hs hq
          refine ⟨c :: u, rfl, ?_, hrest⟩
          rw [places_cons, List.getLast?_append, List.getLast?_map, hlast, List.length_cons,
            Nat.add_comm]
          rfl
      next hnone =>
          have hcs := isPrefixOf?_eq_some_iff.1 h
          have hfront : StartsWith [w] (c :: s) := startsWith_singleton.2 ⟨r, hcs.symm⟩
          have hlater : places [w] s = [] := afterLast?_eq_none hs hnone
          refine ⟨[], hcs, ?_, ?_⟩
          · rw [places_cons, if_pos hfront, hlater]
            rfl
          · obtain ⟨b, v, rfl⟩ := List.exists_cons_of_ne_nil hw
            obtain rfl : s = v ++ r := (List.cons.inj hcs).2
            exact places_of_append_eq_nil hlater

namespace Mark

variable {m : Mark} {marks : List Mark}

/-! ## A word and a phrase -/

section Span
variable {n k a : Nat} {opens closes inner : List Nat}

/-- How much is found on a line where an opening word of length `n`, a closing word of length `k`
and a further word start at the given places. If the last closing word starts behind the first
opening word, they make one phrase, and of the further words those in front of it and behind it are
left. -/
def spanCount (n k : Nat) (opens closes inner : List Nat) : Nat :=
  match opens.head?, closes.getLast? with
  | some d, some e =>
    if d + n ≤ e then 1 + inner.countP (· < d) + inner.countP (e + k ≤ ·) else inner.length
  | _, _ => inner.length

theorem pos_of_mem_map_add (ha : 0 < a) {is : List Nat} : ∀ i ∈ is.map (a + ·), 0 < i :=
  List.forall_mem_map.2 fun i _ => Nat.add_pos_left ha i

theorem spanCount_nil : spanCount n k opens [] inner = inner.length := by
  cases opens.head? <;> simp [spanCount]

/-- The count stays the same when all places move. -/
theorem spanCount_map_add (a : Nat) :
    spanCount n k (opens.map (a + ·)) (closes.map (a + ·)) (inner.map (a + ·)) =
      spanCount n k opens closes inner := by
  cases hd : opens.head? with
  | none => simp [spanCount, hd]
  | some d =>
      cases he : closes.getLast? with
      | none => simp [spanCount, hd, he]
      | some e => simp [spanCount, hd, he, Nat.add_assoc, List.countP_map, Function.comp_def]

/-- A further word in front of everything else counts. -/
theorem spanCount_cons_inner (hopens : ∀ d ∈ opens, 0 < d) (hcloses : ∀ e ∈ closes, 0 < e) :
    spanCount n k opens closes (0 :: inner) = spanCount n k opens closes inner + 1 := by
  cases hd : opens.head? with
  | none => simp [spanCount, hd]
  | some d =>
      cases he : closes.getLast? with
      | none => simp [spanCount, hd, he]
      | some e =>
          have hfront : decide (0 < d) = true := decide_eq_true (hopens d (List.mem_of_head? hd))
          have hbehind : ¬ decide (e + k ≤ 0) = true := by
            have := hcloses e (List.mem_of_getLast? he)
            simp only [decide_eq_true_eq]
            omega
          simp only [spanCount, hd, he]
          split
          next =>
              rw [List.countP_cons, List.countP_cons, if_pos hfront, if_neg hbehind]
              omega
          next => rfl

/-- A closing word in front of everything else closes nothing. -/
theorem spanCount_cons_closes (hopens : ∀ d ∈ opens, 0 < d) :
    spanCount n k opens (0 :: closes) inner = spanCount n k opens closes inner := by
  cases hd : opens.head? with
  | none => simp [spanCount, hd]
  | some d =>
      cases he : closes.getLast? with
      | none =>
          have hlate : ¬ d + n ≤ 0 := by
            have := hopens d (List.mem_of_head? hd)
            omega
          rw [List.getLast?_eq_none_iff.1 he, spanCount_nil]
          simp only [spanCount, hd]
          exact if_neg hlate
      | some e => simp [spanCount, hd, he, List.getLast?_cons]

end Span

/-- What is found on a line by the places of the words of a phrase and of one further word. -/
def phraseCount (find : List Char → List Nat) (first last word : List Char) : Nat :=
  spanCount first.length last.length (find first) (find last) (find word)

/-- The words of a phrase and a further word that do not start inside each other, as far as it
matters for the order in which they are found. -/
structure Separate (first last word : List Char) : Prop where
  word_word : Apart word word
  word_first : Apart word first ∧ first ≠ word
  word_last : Apart word last ∧ last ≠ word
  first_word : Apart first word ∧ word ≠ first
  first_last : Apart first last ∧ last ≠ first

section Phrase
variable {first last word u : List Char} {c : Char}

theorem phraseCount_of_no_last (h : places [last] s = []) :
    phraseCount (places [·] s) first last word = (places [word] s).length := by
  rw [phraseCount, h, spanCount_nil]

theorem phraseCount_word_append (h : Separate first last word) (hne : word ≠ []) (r : List Char) :
    phraseCount (places [·] (word ++ r)) first last word =
      phraseCount (places [·] r) first last word + 1 := by
  have hpos : 0 < word.length := List.length_pos_iff.2 hne
  rw [phraseCount, places_other_append (by simpa using h.word_first),
    places_other_append (by simpa using h.word_last),
    places_word_append List.mem_cons_self hne (by simpa using h.word_word),
    spanCount_cons_inner (pos_of_mem_map_add hpos) (pos_of_mem_map_add hpos), spanCount_map_add,
    phraseCount]

theorem phraseCount_phrase_append (h : Separate first last word) (hne : first ≠ [])
    (hlast : (places [last] (u ++ (last ++ r))).getLast? = some u.length) :
    phraseCount (places [·] (first ++ (u ++ (last ++ r)))) first last word =
      (places [word] r).length + 1 := by
  have hopens : (places [first] (first ++ (u ++ (last ++ r)))).head? = some 0 := by
    obtain ⟨c, v, rfl⟩ := List.exists_cons_of_ne_nil hne
    exact head?_places (startsWith_singleton.2 (List.prefix_append _ _))
  have hcloses : (places [last] (first ++ (u ++ (last ++ r)))).getLast? =
      some (first.length + u.length) := by
    rw [places_other_append (by simpa using h.first_last), List.getLast?_map, hlast]
    rfl
  have hinner : (places [word] (first ++ (u ++ (last ++ r)))).countP
      (first.length + u.length + last.length ≤ ·) = (places [word] r).length := by
    have hcut := countP_places_append [word] (first ++ u ++ last) r
    simpa only [List.length_append, List.append_assoc, Nat.add_assoc] using hcut
  have hnone : (places [word] (first ++ (u ++ (last ++ r)))).countP (· < 0) = 0 :=
    List.countP_eq_zero.2 fun i _ => by simp
  simp only [phraseCount, spanCount, hopens, hcloses]
  rw [if_pos (by omega), hnone, hinner]
  omega

theorem phraseCount_cons (h : Separate first last word) (hword : ¬ word <+: c :: s)
    (hphrase : ∀ t, c :: s = first ++ t → places [last] t = []) :
    phraseCount (places [·] (c :: s)) first last word =
      phraseCount (places [·] s) first last word := by
  have hinner : places [word] (c :: s) = (places [word] s).map (1 + ·) := by
    rw [places_cons, if_neg (startsWith_singleton.not.2 hword), List.nil_append]
  by_cases hfirst : first <+: c :: s
  · -- a phrase that opens but does not close leaves the line without a closing word
    obtain ⟨t, ht⟩ := hfirst
    have hcloses : places [last] (c :: s) = [] := by
      rw [← ht, places_other_append (by simpa using h.first_last), hphrase t ht.symm, List.map_nil]
    have hlater : places [last] s = [] := places_of_append_eq_nil (s := [c]) hcloses
    rw [phraseCount_of_no_last hcloses, phraseCount_of_no_last hlater, hinner, List.length_map]
  · have hopens : places [first] (c :: s) = (places [first] s).map (1 + ·) := by
      rw [places_cons, if_neg (startsWith_singleton.not.2 hfirst), List.nil_append]
    -- a closing word may stand here, but every opening word is behind it
    rw [phraseCount, hopens, hinner, places_cons, phraseCount]
    split
    next =>
        rw [List.singleton_append, spanCount_cons_closes (pos_of_mem_map_add Nat.one_pos),
          spanCount_map_add]
    next => rw [List.nil_append, spanCount_map_add]

end Phrase

/-! ## The marks of a line -/

section Line
variable {opener closer inner : String} {hopener : opener.toList ≠ []} {hinner : inner.toList ≠ []}

/-- A phrase ends with the last closing word of the line. -/
theorem after?_phrase_eq_some (hcloser : closer.toList ≠ []) (hline : '\n' ∉ s)
    (h : (phrase opener closer hopener).after? s = some r) :
    ∃ u, s = opener.toList ++ (u ++ (closer.toList ++ r)) ∧
      (places [closer.toList] (u ++ (closer.toList ++ r))).getLast? = some u.length ∧
        places [closer.toList] r = [] := by
  simp only [after?] at h
  split at h
  next t ht =>
      obtain rfl := isPrefixOf?_eq_some_iff.1 ht
      have hrest : '\n' ∉ t := fun hmem => hline (List.mem_append_right _ hmem)
      obtain ⟨u, rfl, hlast, hnone⟩ := afterLast?_eq_some hcloser hrest h
      exact ⟨u, rfl, hlast, hnone⟩
  next => cases h

theorem after?_phrase_eq_none (hline : '\n' ∉ s)
    (h : (phrase opener closer hopener).after? s = none) (ht : s = opener.toList ++ t) :
    places [closer.toList] t = [] := by
  subst ht
  simp only [after?, isPrefixOf?_eq_some_iff.2 rfl] at h
  exact afterLast?_eq_none (fun hmem => hline (List.mem_append_right _ hmem)) h

/-- What is found on a line for a word and a phrase, in whichever order they are listed. -/
theorem count_eq_phraseCount (hseparate : Separate opener.toList closer.toList inner.toList)
    (hcloser : closer.toList ≠ [])
    (hmarks : ∀ m, m ∈ marks ↔ m = word inner hinner ∨ m = phrase opener closer hopener)
    (hline : '\n' ∉ s) :
    count marks s =
      phraseCount (places [·] s) opener.toList closer.toList inner.toList := by
  induction s using search_induction marks with
  | found s r hs ih =>
      obtain ⟨m, hm, hafter⟩ := List.exists_of_findSome?_eq_some hs
      rw [count_of_eq_some hs]
      rcases (hmarks m).1 hm with rfl | rfl
      · obtain rfl := isPrefixOf?_eq_some_iff.1 hafter
        rw [ih fun hmem => hline (List.mem_append_right _ hmem),
          phraseCount_word_append hseparate hinner]
      · obtain ⟨u, rfl, hlast, hnone⟩ := after?_phrase_eq_some hcloser hline hafter
        have hrest : '\n' ∉ r := fun hmem => hline (by simp [hmem])
        rw [ih hrest, phraseCount_of_no_last hnone,
          phraseCount_phrase_append hseparate hopener hlast]
  | nil => exact count_nil marks
  | skip c s hs ih =>
      have hnone := List.findSome?_eq_none_iff.1 hs
      have hword : ¬ inner.toList <+: c :: s := by
        rintro ⟨r, hr⟩
        have hafter := hnone _ ((hmarks _).2 (.inl rfl))
        cases hafter.symm.trans (isPrefixOf?_eq_some_iff.2 hr.symm)
      have hphrase := hnone _ ((hmarks _).2 (.inr rfl))
      rw [count_cons_of_eq_none hs, ih (List.not_mem_of_not_mem_cons hline),
        phraseCount_cons hseparate hword fun t => after?_phrase_eq_none hline hphrase]

/-- All phrases among the marks have the same closing word. -/
def ClosesWith (marks : List Mark) (closer : String) : Prop :=
  ∀ opener last hne, phrase opener last hne ∈ marks → last = closer

/-- Where the closing word is missing there is no phrase. -/
theorem countP_isPhrase_eq_zero (hclose : ClosesWith marks closer) (hcloser : closer.toList ≠ [])
    (hline : '\n' ∉ s) (h : places [closer.toList] s = []) :
    (found marks s).countP isPhrase = 0 := by
  fun_induction found marks s with
  | case1 s m r hfront ih =>
      obtain ⟨hm, hafter⟩ := front?_eq_some hfront
      cases m with
      | word w hw =>
          obtain rfl := isPrefixOf?_eq_some_iff.1 hafter
          have hrest : '\n' ∉ r := fun hmem => hline (List.mem_append_right _ hmem)
          exact ih hrest (places_of_append_eq_nil h)
      | phrase opener last hne =>
          obtain rfl := hclose _ _ _ hm
          obtain ⟨u, rfl, hlast, -⟩ := after?_phrase_eq_some hcloser hline hafter
          rw [places_of_append_eq_nil h] at hlast
          cases hlast
  | case2 => rfl
  | case3 c s hfront ih =>
      exact ih (List.not_mem_of_not_mem_cons hline) (places_of_append_eq_nil (s := [c]) h)

/-- A phrase takes up the last closing word of its line, so no phrase follows it. -/
theorem countP_isPhrase_le_one (hclose : ClosesWith marks closer) (hcloser : closer.toList ≠ [])
    (hline : '\n' ∉ s) : (found marks s).countP isPhrase ≤ 1 := by
  fun_induction found marks s with
  | case1 s m r hfront ih =>
      obtain ⟨hm, hafter⟩ := front?_eq_some hfront
      cases m with
      | word w hw =>
          obtain rfl := isPrefixOf?_eq_some_iff.1 hafter
          exact ih fun hmem => hline (List.mem_append_right _ hmem)
      | phrase opener last hne =>
          obtain rfl := hclose _ _ _ hm
          obtain ⟨u, rfl, -, hnone⟩ := after?_phrase_eq_some hcloser hline hafter
          have hrest : '\n' ∉ r := fun hmem => hline (by simp [hmem])
          rw [List.countP_cons, countP_isPhrase_eq_zero hclose hcloser hrest hnone]
          exact Nat.le_refl 1
  | case2 => exact Nat.zero_le 1
  | case3 c s hfront ih => exact ih (List.not_mem_of_not_mem_cons hline)

end Line

end Mark
end IrSurvey
