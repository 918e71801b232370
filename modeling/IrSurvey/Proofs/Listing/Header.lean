import IrSurvey.Listing.Definition
import IrSurvey.Proofs.Listing.Qualifier
import IrSurvey.Proofs.Text.Symbol

/-!
What a header says about the text that it is read from. The text between `define` and the sigil is
cut into qualifiers, a return type and a gap; the other way round, a header that is written with
single spaces is read as it was meant.
-/
namespace IrSurvey.Listing
open Text

namespace Header

/-- Blanks and header qualifiers, with blanks at both ends. -/
structure IsLead (s : List Char) : Prop where
  front : ∃ c ∈ s.head?, isBlank c = true
  back : ∃ c ∈ s.getLast?, isBlank c = true
  qualifiers : ∀ q ∈ words s, isHeaderQualifier q = true

/-- A stretch of text stands for a return type, between the qualifiers and the gap around it. -/
structure TypeCut (lead raw gap type : List Char) : Prop where
  lead_isLead : IsLead lead
  raw_ne_nil : raw ≠ []
  raw_on_line : '\n' ∉ raw
  trim_raw : trim raw = type
  gap_ne_nil : gap ≠ []
  gap_blank : AllBlank gap
  /-- Only a type of a single word may be spelled like a qualifier. -/
  first_word : ∀ v w ws, words type = v :: w :: ws → isHeaderQualifier v = false

variable {s lead type name rest : List Char}

/-- The front of a lead is one if it ends with a blank, and only blanks follow it. -/
theorem IsLead.of_append_blank {g : List Char} (h : IsLead (s ++ g)) (hg : AllBlank g)
    (hs : ∃ c ∈ s.getLast?, isBlank c = true) : IsLead s := by
  have hne : s ≠ [] := by
    rintro rfl
    obtain ⟨c, hc, -⟩ := hs
    cases hc
  refine ⟨?_, hs, ?_⟩
  · simpa only [List.head?_append_of_ne_nil s hne] using h.front
  · simpa only [words_append_blank s hg] using h.qualifiers

/-- What the leading qualifiers leave stands behind a lead. -/
theorem exists_lead (hfront : ∃ c ∈ s.head?, isBlank c = true) :
    ∃ w, IsLead w ∧ s = w ++ dropQualifiers isBlank isHeaderQualifier (trimStart s) := by
  obtain ⟨g, hg, hs⟩ := exists_blank_trimStart s
  obtain ⟨r, hr, hrest⟩ :=
    exists_run_dropQualifiers isBlank isHeaderQualifier (trimStart s)
  obtain ⟨c, hc, hblank⟩ := hfront
  have hne : g ≠ [] := by
    rintro rfl
    rw [List.nil_append] at hs
    have hsolid := frontSolid_trimStart s c (hs ▸ hc)
    rw [hblank] at hsolid
    cases hsolid
  refine ⟨g ++ r, ⟨?_, ?_, ?_⟩, ?_⟩
  · rw [List.head?_append_of_ne_nil g hne]
    exact ⟨g.head hne, List.head_mem_head? hne, hg _ (List.head_mem hne)⟩
  · by_cases hr' : r = []
    · rw [hr', List.append_nil]
      exact ⟨g.getLast hne, List.getLast_mem_getLast? hne, hg _ (List.getLast_mem hne)⟩
    · rw [List.getLast?_append_of_ne_nil g hr']
      exact ⟨r.getLast hr', List.getLast_mem_getLast? hr',
        hr.getLast?_blank _ (List.getLast_mem_getLast? hr')⟩
  · rw [words_blank_append hg]
    exact hr.isHeaderQualifier_of_mem_words
  · rw [List.append_assoc, ← hrest, ← hs]

/-- The type is what the qualifiers leave. -/
theorem typeCut_core {core : List Char} (hlead : IsLead lead) (hsolid : FrontSolid core)
    (hne : core ≠ [])
    (hstop : isHeaderQualifier (core.takeWhile (!isBlank ·)) = true →
      core.dropWhile (!isBlank ·) = [])
    (hlen : (trimEnd core).length ≠ core.length) (hline : '\n' ∉ trimEnd core) :
    ∃ g, core = trimEnd core ++ g ∧ TypeCut lead (trimEnd core) g (trimEnd core) := by
  obtain ⟨g, hg, hcore⟩ := exists_blank_trimEnd core
  have hback : BackSolid (trimEnd core) := backSolid_trimEnd core
  have hraw : trimEnd core ≠ [] := fun he =>
    hne (eq_nil_of_allBlank_of_frontSolid (trimEnd_eq_nil_iff.1 he) hsolid)
  generalize trimEnd core = raw at hcore hback hraw hlen hline
  subst hcore
  have hfront : FrontSolid raw := (frontSolid_append hraw).1 hsolid
  refine ⟨g, rfl, hlead, hraw, hline, trim_eq_self hfront hback, ?_, hg, ?_⟩
  · rintro rfl
    exact hlen (by rw [List.append_nil])
  · intro v w ws hwords
    -- a second word means that a blank ends the first, where the qualifiers stopped
    obtain ⟨hfirst, hrest⟩ := takeWhile_append_of_words hfront hwords g
    by_contra hq
    rw [Bool.not_eq_false, ← hfirst] at hq
    exact hrest (hstop hq)

theorem exists_between_of_mem_tail_dropLast {α : Type} {a : α} {l : List α}
    (h : a ∈ l.tail.dropLast) : ∃ l₁ l₂, l = l₁ ++ a :: l₂ ∧ l₁ ≠ [] ∧ l₂ ≠ [] := by
  cases l with
  | nil => cases h
  | cons b l =>
      obtain ⟨u, v, huv⟩ := List.append_of_mem h
      have hl : l ≠ [] := by
        rintro rfl
        cases h
      refine ⟨b :: u, v ++ [l.getLast hl], ?_, List.cons_ne_nil _ _, by simp⟩
      calc b :: l = b :: (l.dropLast ++ [l.getLast hl]) := by rw [List.dropLast_concat_getLast hl]
        _ = b :: ((u ++ a :: v) ++ [l.getLast hl]) := by rw [← huv, List.tail_cons]
        _ = _ := by simp

/-- A blank inside the last gap lends a type, if the qualifiers leave nothing. -/
theorem typeCut_blank (hlead : IsLead s)
    (hany : (s.reverse.takeWhile isBlank).tail.dropLast.any (· ≠ '\n') = true) :
    ∃ w raw g, s = w ++ raw ++ g ∧ TypeCut w raw g [] := by
  obtain ⟨c, hc, hline⟩ := List.any_eq_true.1 hany
  obtain ⟨l₁, l₂, hgap, hne₁, hne₂⟩ := exists_between_of_mem_tail_dropLast hc
  have hblank : AllBlank (l₁ ++ c :: l₂) := fun b hb => List.mem_takeWhile_imp (hgap ▸ hb)
  have hs : s = ((s.reverse.dropWhile isBlank).reverse ++ l₂.reverse) ++ ([c] ++ l₁.reverse) := by
    calc s = (s.reverse.takeWhile isBlank ++ s.reverse.dropWhile isBlank).reverse := by
          rw [List.takeWhile_append_dropWhile, List.reverse_reverse]
      _ = _ := by rw [hgap]; simp
  have hg₁ : AllBlank l₁.reverse := fun b hb =>
    hblank b (List.mem_append_left _ (List.mem_reverse.1 hb))
  have hg₂ : AllBlank l₂.reverse := fun b hb =>
    hblank b (List.mem_append_right _ (List.mem_cons_of_mem c (List.mem_reverse.1 hb)))
  have hc : AllBlank [c] := fun b hb =>
    hblank b (List.mem_append_right _ (List.mem_singleton.1 hb ▸ List.mem_cons_self))
  have hne : l₂.reverse ≠ [] := by simpa using hne₂
  generalize hw : (s.reverse.dropWhile isBlank).reverse ++ l₂.reverse = w at hs
  refine ⟨w, [c], l₁.reverse, by rw [List.append_assoc, ← hs], ?_, List.cons_ne_nil _ _, ?_,
    trim_eq_nil_iff.2 hc, by simpa using hne₁, hg₁, ?_⟩
  · refine (hs ▸ hlead).of_append_blank ?_ ⟨l₂.reverse.getLast hne, ?_, hg₂ _ (List.getLast_mem hne)⟩
    · intro b hb
      rcases List.mem_append.1 hb with hb | hb
      · exact hc b hb
      · exact hg₁ b hb
    · rw [← hw, List.getLast?_append_of_ne_nil _ hne]
      exact List.getLast_mem_getLast? hne
  · intro hmem
    exact of_decide_eq_true hline (List.mem_singleton.1 hmem).symm
  · intro v w ws he
    cases he

/-- The last qualifier stands for the type, if the qualifiers leave nothing. -/
theorem typeCut_qualifier (hlead : IsLead s) (htype : (words s).getLast? = some type) :
    ∃ w g, s = w ++ type ++ g ∧ TypeCut w type g type := by
  have hs : ¬ AllBlank s := by
    intro h
    rw [show words s = [] by simpa using words_append_blank [] h] at htype
    cases htype
  obtain ⟨w, q, g, rfl, hq, hsolid, hg, hback, hwords⟩ := exists_last_word hs
  rw [hwords, List.getLast?_concat] at htype
  obtain rfl := Option.some.inj htype
  have hw : w ≠ [] := by
    rintro rfl
    obtain ⟨c, hc, hblank⟩ := hlead.front
    rw [List.nil_append, List.head?_append_of_ne_nil q hq] at hc
    rw [hsolid c (List.mem_of_mem_head? hc)] at hblank
    cases hblank
  have hg' : g ≠ [] := by
    rintro rfl
    obtain ⟨c, hc, hblank⟩ := hlead.back
    rw [List.append_nil, List.getLast?_append_of_ne_nil w hq] at hc
    rw [hsolid c (List.mem_of_mem_getLast? hc)] at hblank
    cases hblank
  refine ⟨w, g, rfl, ⟨?_, ?_, ?_⟩, hq, ?_, hsolid.trim_eq, hg', hg, ?_⟩
  · rw [← List.head?_append_of_ne_nil w hw, ← List.append_assoc]
    exact hlead.front
  · exact ⟨w.getLast hw, List.getLast_mem_getLast? hw, hback _ (List.getLast_mem_getLast? hw)⟩
  · intro v hv
    apply hlead.qualifiers
    rw [hwords]
    exact List.mem_append_left _ hv
  · intro hline
    exact absurd (hsolid _ hline) (by decide)
  · intro v w ws he
    rw [words_eq_singleton hq hsolid] at he
    cases he

theorem returnType?_sound (h : returnType? s = some type) :
    ∃ w raw g, s = w ++ raw ++ g ∧ TypeCut w raw g type := by
  unfold returnType? at h
  dsimp only at h
  split at h
  next => cases h
  next hfront =>
      obtain ⟨w, hw, hs⟩ := exists_lead (s := s) (by simpa [Option.any_eq_true] using hfront)
      split at h
      next hcore =>
          rw [hcore, List.append_nil] at hs
          subst hs
          split at h
          next hany =>
              obtain rfl : [] = type := Option.some.inj h
              exact typeCut_blank hw hany
          next =>
              obtain ⟨v, g, he, hcut⟩ := typeCut_qualifier hw h
              exact ⟨v, type, g, he, hcut⟩
      next hcore =>
          split at h
          next => cases h
          next hok =>
              obtain rfl := Option.some.inj h
              obtain ⟨hlen, hline⟩ := not_or.1 hok
              obtain ⟨g, hg, hcut⟩ := typeCut_core hw
                (head?_dropQualifiers (frontSolid_trimStart s)) hcore dropWhile_dropQualifiers
                hlen hline
              exact ⟨w, _, g, by rw [List.append_assoc, ← hg, ← hs], hcut⟩

/-- A header is read off its spelling: no sigil in front of the name, a return type in the text
before the sigil, and at most a gap behind the name. -/
theorem read?_eq_some_iff {h : Header} :
    read? s = some h ↔ ∃ lead nameGap,
      s = "define".toList ++ (lead ++ '@' :: (h.name ++ nameGap ++ '(' :: h.rest)) ∧
        '@' ∉ lead ∧ returnType? lead = some h.returnType ∧ IsSymbol h.name ∧ AllBlank nameGap := by
  constructor
  · intro hs
    unfold read? at hs
    split at hs
    next => cases hs
    next t ht =>
        obtain rfl := isPrefixOf?_eq_some_iff.1 ht
        split at hs
        next => cases hs
        next c r hr =>
            split at hs
            next name rest type hname htype =>
                cases hs
                obtain ⟨nameGap, hgap, hsymbol, rfl⟩ := applied?_sound hname
                obtain rfl : c = '@' := by
                  simpa using head?_dropWhile (· ≠ '@') t c (by rw [hr]; rfl)
                refine ⟨t.takeWhile (· ≠ '@'), nameGap, ?_, ?_, htype, hsymbol, hgap⟩
                · exact congrArg _ (eq_takeWhile_append_cons hr)
                · intro hmem
                  simpa using List.mem_takeWhile_imp hmem
            next => cases hs
  · rintro ⟨lead, nameGap, rfl, hsigil, htype, hname, hgap⟩
    have hlead : ∀ c ∈ lead, decide (c ≠ '@') = true := by
      intro c hc
      rw [decide_eq_true_eq]
      rintro rfl
      exact hsigil hc
    unfold read?
    rw [isPrefixOf?_eq_some_iff.2 rfl]
    dsimp only
    rw [dropWhile_append_cons hlead (by decide), takeWhile_append_cons hlead (by decide)]
    simp only [applied?_of_gap hname hgap, htype]

theorem read?_sound {h : Header} (hs : read? s = some h) :
    ∃ lead raw gap nameGap,
      s = "define".toList ++ lead ++ raw ++ gap ++ '@' :: h.name ++ nameGap ++ '(' :: h.rest ∧
        TypeCut lead raw gap h.returnType ∧ '@' ∉ raw ∧ IsSymbol h.name ∧ AllBlank nameGap := by
  obtain ⟨front, nameGap, rfl, hsigil, htype, hname, hgap⟩ := read?_eq_some_iff.1 hs
  obtain ⟨lead, raw, gap, rfl, hcut⟩ := returnType?_sound htype
  refine ⟨lead, raw, gap, nameGap, by simp, hcut, ?_, hname, hgap⟩
  intro hmem
  exact hsigil (List.mem_append_left _ (List.mem_append_right _ hmem))

/-- What follows a header has no part in how it is read. -/
theorem exists_read?_append {h : Header} (hs : read? s = some h) :
    ∃ w, w ≠ [] ∧ s = w ++ h.rest ∧ ∀ t, read? (w ++ t) = some { h with rest := t } := by
  obtain ⟨lead, nameGap, rfl, hsigil, htype, hname, hgap⟩ := read?_eq_some_iff.1 hs
  refine ⟨"define".toList ++ (lead ++ '@' :: (h.name ++ nameGap ++ ['('])), by simp, by simp, ?_⟩
  intro t
  exact read?_eq_some_iff.2 ⟨lead, nameGap, by simp, hsigil, htype, hname, hgap⟩

/-! ## Writing -/

/-- A header in its plain spelling, up to the parenthesis that opens the parameters. -/
def write (qualifiers : List (List Char)) (type name : List Char) : List Char :=
  "define".toList ++ ' ' :: qualifiers.flatMap (· ++ [' ']) ++ type ++ ' ' :: '@' :: name ++ ['(']

variable {qualifiers : List (List Char)}

/-- The type is not taken for qualifiers, nor for a part of another header. -/
structure IsType (type : List Char) : Prop where
  ne_nil : type ≠ []
  trimmed : trim type = type
  no_sigil : '@' ∉ type
  on_line : '\n' ∉ type
  first_word : ∀ w ∈ (words type).head?, isHeaderQualifier w = false

theorem qualifierRun_flatMap (hq : ∀ q ∈ qualifiers, isHeaderQualifier q = true) :
    QualifierRun isBlank isHeaderQualifier (qualifiers.flatMap (· ++ [' '])) := by
  induction qualifiers with
  | nil => exact .nil
  | cons q qs ih =>
      exact .cons (hq q List.mem_cons_self) (List.cons_ne_nil _ _) allBlank_space
        (ih fun v hv => hq v (List.mem_cons_of_mem q hv))

theorem IsType.frontSolid_append (h : IsType type) (t : List Char) : FrontSolid (type ++ t) :=
  (Text.frontSolid_append h.ne_nil).2 (solid_of_trim_eq_self h.trimmed).1

theorem dropQualifiers_write (hq : ∀ q ∈ qualifiers, isHeaderQualifier q = true)
    (htype : IsType type) :
    dropQualifiers isBlank isHeaderQualifier (qualifiers.flatMap (· ++ [' ']) ++ (type ++ [' '])) =
      type ++ [' '] := by
  have hsolid : FrontSolid (type ++ [' ']) := htype.frontSolid_append _
  have hwords := words_of_frontSolid (by simp) hsolid
  rw [words_append_blank _ allBlank_space] at hwords
  rw [(qualifierRun_flatMap hq).dropQualifiers_append isHeaderQualifier_word hsolid]
  exact dropQualifiers_eq_self (htype.first_word _ (by rw [hwords]; rfl))

theorem returnType?_write (hq : ∀ q ∈ qualifiers, isHeaderQualifier q = true)
    (htype : IsType type) :
    returnType? (' ' :: (qualifiers.flatMap (· ++ [' ']) ++ (type ++ [' ']))) = some type := by
  have hsolid : FrontSolid (qualifiers.flatMap (· ++ [' ']) ++ (type ++ [' '])) :=
    (qualifierRun_flatMap hq).head?_append isHeaderQualifier_word (htype.frontSolid_append _)
  have htrim : trimStart (' ' :: (qualifiers.flatMap (· ++ [' ']) ++ (type ++ [' ']))) =
      qualifiers.flatMap (· ++ [' ']) ++ (type ++ [' ']) :=
    (trimStart_append allBlank_space _).trans (trimStart_eq_self hsolid)
  have hend : trimEnd (type ++ [' ']) = type :=
    (trimEnd_append type allBlank_space).trans
      (trimEnd_eq_self_iff.2 (solid_of_trim_eq_self htype.trimmed).2)
  have hblank : isBlank ' ' = true := by decide
  simp [returnType?, htrim, dropQualifiers_write hq htype, hend, hblank, htype.on_line]

theorem read?_write (hq : ∀ q ∈ qualifiers, isHeaderQualifier q = true) (htype : IsType type)
    (hname : IsSymbol name) :
    read? (write qualifiers type name ++ rest) = some { returnType := type, name, rest } := by
  have hsigil : '@' ∉ ' ' :: (qualifiers.flatMap (· ++ [' ']) ++ (type ++ [' '])) := by
    intro hc
    simp only [List.mem_cons, List.mem_append, List.mem_flatMap] at hc
    rcases hc with hc | ⟨q, hqs, hc | hc⟩ | hc | hc
    · cases hc
    · exact (isHeaderQualifier_spelling (hq q hqs)).2.2 hc
    · simp at hc
    · exact htype.no_sigil hc
    · simp at hc
  have hnil : AllBlank [] := nofun
  have hs : write qualifiers type name ++ rest = "define".toList ++
      (' ' :: (qualifiers.flatMap (· ++ [' ']) ++ (type ++ [' '])) ++
        '@' :: (name ++ [] ++ '(' :: rest)) := by
    unfold write
    rw [List.append_nil]
    simp only [List.append_assoc, List.cons_append, List.nil_append]
  have hread := returnType?_write hq htype
  generalize ' ' :: (qualifiers.flatMap (· ++ [' ']) ++ (type ++ [' '])) = lead at hsigil hs hread
  exact read?_eq_some_iff.2 ⟨lead, [], hs, hsigil, hread, hname, hnil⟩

end Header
end IrSurvey.Listing
