import IrSurvey.Proofs.Text.Blank
import IrSurvey.Proofs.Text.Join
import IrSurvey.Text.Bracket

/-!
The pieces between top-level commas. They are the only texts that joined by commas give the text
again, in which every comma stands in a bracket, and which, but for the last, close what they open.
Trimmed they lack blanks of the text and at most its last comma.
-/
namespace IrSurvey.Text

/-- How many brackets of any kind a text opens beyond those that it closes. -/
def bracketDepth (s : List Char) : Int :=
  s.countP isOpening - s.countP isClosing

/-- Neither a comma nor a bracket. -/
def IsPlain (c : Char) : Prop :=
  c ≠ ',' ∧ isOpening c = false ∧ isClosing c = false

instance (c : Char) : Decidable (IsPlain c) :=
  inferInstanceAs (Decidable (_ ∧ _))

/-- No comma of a text that itself stands at `depth` stands at depth 0. -/
def CommasNested (depth : Int) (s : List Char) : Prop :=
  ∀ p r, s = p ++ ',' :: r → depth + bracketDepth p ≠ 0

/-- Pieces of a text that starts at `depth`: no comma in them stands at depth 0, and all but the
last end there. -/
inductive AreTopLevel : Int → List (List Char) → Prop
  | last {depth p} : CommasNested depth p → AreTopLevel depth [p]
  | cons {depth p ps} : CommasNested depth p → depth + bracketDepth p = 0 → AreTopLevel 0 ps →
      AreTopLevel depth (p :: ps)

variable {depth : Int} {s t p r : List Char} {ps : List (List Char)}

/-! ## Depth -/

theorem isClosing_of_isOpening {c : Char} (h : isOpening c = true) : isClosing c = false := by
  simp only [isOpening, Bool.or_eq_true, decide_eq_true_eq] at h
  rcases h with ((rfl | rfl) | rfl) | rfl <;> decide

@[simp] theorem bracketDepth_nil : bracketDepth [] = 0 := rfl

theorem bracketDepth_append (s t : List Char) :
    bracketDepth (s ++ t) = bracketDepth s + bracketDepth t := by
  simp only [bracketDepth, List.countP_append, Int.natCast_add]
  omega

theorem depthAfter_eq (depth : Int) (c : Char) : depthAfter depth c = depth + bracketDepth [c] := by
  simp only [depthAfter, bracketDepth, List.countP_singleton]
  by_cases ho : isOpening c
  · simp [ho, isClosing_of_isOpening ho]
  · by_cases hc : isClosing c
    · simp only [ho, hc, if_true, Bool.false_eq_true, if_false]
      omega
    · simp [ho, hc]

theorem depthAfter_add_bracketDepth (depth : Int) (c : Char) (s : List Char) :
    depthAfter depth c + bracketDepth s = depth + bracketDepth (c :: s) := by
  have happend : bracketDepth (c :: s) = bracketDepth [c] + bracketDepth s :=
    bracketDepth_append [c] s
  rw [depthAfter_eq, happend, Int.add_assoc]

theorem bracketDepth_of_plain (h : ∀ c ∈ s, IsPlain c) : bracketDepth s = 0 := by
  have ho : s.countP isOpening = 0 := List.countP_eq_zero.2 fun c hc => by simp [(h c hc).2.1]
  have hc : s.countP isClosing = 0 := List.countP_eq_zero.2 fun c hc => by simp [(h c hc).2.2]
  rw [bracketDepth, ho, hc]
  rfl

/-- No prefix of a text is deeper than the text has brackets. -/
theorem natAbs_bracketDepth_le (hp : p <+: s) :
    (bracketDepth p).natAbs ≤ s.countP fun c => isOpening c || isClosing c := by
  have hopening : p.countP isOpening ≤ p.countP fun c => isOpening c || isClosing c :=
    List.countP_mono_left fun c _ h => by simp [h]
  have hclosing : p.countP isClosing ≤ p.countP fun c => isOpening c || isClosing c :=
    List.countP_mono_left fun c _ h => by simp [h]
  have hprefix := hp.sublist.countP_le (p := fun c => isOpening c || isClosing c)
  rw [bracketDepth]
  omega

/-! ## Nested commas -/

theorem commasNested_of_not_mem (h : ',' ∉ s) : CommasNested depth s := by
  rintro p r rfl
  exact absurd (List.mem_append_right p List.mem_cons_self) h

theorem commasNested_cons {c : Char} :
    CommasNested depth (c :: s) ↔ (c = ',' → depth ≠ 0) ∧ CommasNested (depthAfter depth c) s := by
  simp only [CommasNested, depthAfter_add_bracketDepth]
  refine forall_before_cons.trans (and_congr_left' ?_)
  rw [bracketDepth_nil, Int.add_zero]

theorem commasNested_append :
    CommasNested depth (s ++ t) ↔
      CommasNested depth s ∧ CommasNested (depth + bracketDepth s) t := by
  induction s generalizing depth with
  | nil => simp [commasNested_of_not_mem]
  | cons c s ih =>
      rw [List.cons_append, commasNested_cons, commasNested_cons, ih, depthAfter_add_bracketDepth,
        and_assoc]

theorem commasNested_of_plain (h : ∀ c ∈ s, IsPlain c) : CommasNested depth s :=
  commasNested_of_not_mem fun hc => (h _ hc).1 rfl

theorem AllBlank.plain (h : AllBlank s) : ∀ c ∈ s, IsPlain c := fun c hc => by
  have hplain : decide (¬ IsPlain c) = false :=
    eq_false_of_isBlank (p := fun c => decide (¬ IsPlain c)) (by decide +kernel) (h c hc)
  simpa using hplain

/-- Blanks around a text change neither its depth nor that of its commas. -/
theorem bracketDepth_pad {a b : List Char} (ha : AllBlank a) (hb : AllBlank b) :
    bracketDepth (a ++ (s ++ b)) = bracketDepth s := by
  rw [bracketDepth_append, bracketDepth_append, bracketDepth_of_plain ha.plain,
    bracketDepth_of_plain hb.plain, Int.zero_add, Int.add_zero]

theorem commasNested_pad {a b : List Char} (ha : AllBlank a) (hb : AllBlank b) :
    CommasNested depth (a ++ (s ++ b)) ↔ CommasNested depth s := by
  rw [commasNested_append, commasNested_append, bracketDepth_of_plain ha.plain, Int.add_zero]
  exact ⟨fun h => h.2.1, fun h => ⟨commasNested_of_plain ha.plain, h, commasNested_of_plain hb.plain⟩⟩

theorem bracketDepth_trim (s : List Char) : bracketDepth (trim s) = bracketDepth s := by
  obtain ⟨a, b, ha, hb, hs⟩ := exists_blank_trim s
  conv_rhs => rw [hs, bracketDepth_pad ha hb]

theorem commasNested_trim : CommasNested depth (trim s) ↔ CommasNested depth s := by
  obtain ⟨a, b, ha, hb, hs⟩ := exists_blank_trim s
  conv_rhs => rw [hs, commasNested_pad ha hb]

/-! ## Pieces -/

theorem AreTopLevel.ne_nil (h : AreTopLevel depth ps) : ps ≠ [] := by
  cases h <;> exact List.cons_ne_nil _ _

theorem areTopLevel_topLevelPieces (depth : Int) (s : List Char) :
    AreTopLevel depth (topLevelPieces depth s) := by
  induction s generalizing depth with
  | nil => exact .last (commasNested_of_not_mem List.not_mem_nil)
  | cons c s ih =>
      rw [topLevelPieces]
      split
      next h => exact .cons (commasNested_of_not_mem List.not_mem_nil) (by simp [h.2]) (ih 0)
      next h =>
          have hc : c = ',' → depth ≠ 0 := fun hc hdepth => h ⟨hc, hdepth⟩
          -- the character joins the first piece, which then starts one character earlier
          have hpieces := ih (depthAfter depth c)
          generalize topLevelPieces (depthAfter depth c) s = qs at hpieces
          cases hpieces with
          | last hp => exact .last (commasNested_cons.2 ⟨hc, hp⟩)
          | cons hp hdepth hps =>
              rw [depthAfter_add_bracketDepth] at hdepth
              exact .cons (commasNested_cons.2 ⟨hc, hp⟩) hdepth hps

theorem intercalate_topLevelPieces (depth : Int) (s : List Char) :
    [','].intercalate (topLevelPieces depth s) = s := by
  induction s generalizing depth with
  | nil => rfl
  | cons c s ih =>
      rw [topLevelPieces]
      split
      next h =>
          rw [intercalate_cons (areTopLevel_topLevelPieces 0 s).ne_nil, ih, h.1,
            List.nil_append]
      next => rw [intercalate_modifyHead (areTopLevel_topLevelPieces _ s).ne_nil, ih]

theorem topLevelPieces_eq_singleton (h : CommasNested depth p) : topLevelPieces depth p = [p] := by
  induction p generalizing depth with
  | nil => rfl
  | cons c p ih =>
      obtain ⟨hc, hp⟩ := commasNested_cons.1 h
      rw [topLevelPieces, if_neg fun h => hc h.1 h.2, ih hp, List.modifyHead_cons]

/-- A text that ends at depth 0 is cut at a comma behind it. -/
theorem topLevelPieces_append (hdepth : depth + bracketDepth s = 0) (r : List Char) :
    topLevelPieces depth (s ++ ',' :: r) = topLevelPieces depth s ++ topLevelPieces 0 r := by
  induction s generalizing depth with
  | nil =>
      rw [bracketDepth_nil, Int.add_zero] at hdepth
      rw [List.nil_append, topLevelPieces, topLevelPieces, if_pos ⟨rfl, hdepth⟩]
      rfl
  | cons c s ih =>
      rw [← depthAfter_add_bracketDepth] at hdepth
      rw [List.cons_append, topLevelPieces, topLevelPieces]
      split
      next h =>
          obtain ⟨rfl, rfl⟩ := h
          have hs : 0 + bracketDepth s = 0 := hdepth
          rw [ih hs, List.cons_append]
      next =>
          obtain ⟨p, ps, hp⟩ := List.exists_cons_of_ne_nil
            (areTopLevel_topLevelPieces (depthAfter depth c) s).ne_nil
          rw [ih hdepth, hp]
          rfl

theorem topLevelPieces_append_comma (h : CommasNested depth p) (hdepth : depth + bracketDepth p = 0)
    (r : List Char) : topLevelPieces depth (p ++ ',' :: r) = p :: topLevelPieces 0 r := by
  rw [topLevelPieces_append hdepth, topLevelPieces_eq_singleton h, List.singleton_append]

/-- Blanks in front of a text stand in its first piece. -/
theorem topLevelPieces_blank_append {g : List Char} (hg : AllBlank g) (s : List Char) :
    topLevelPieces depth (g ++ s) = (topLevelPieces depth s).modifyHead (g ++ ·) := by
  induction g with
  | nil =>
      obtain ⟨p, ps, hp⟩ :=
        List.exists_cons_of_ne_nil (areTopLevel_topLevelPieces depth s).ne_nil
      rw [List.nil_append, hp]
      rfl
  | cons c g ih =>
      obtain ⟨hc, hg⟩ := List.forall_mem_cons.1 hg
      have hplain : ∀ a ∈ [c], IsPlain a := AllBlank.plain (List.forall_mem_singleton.2 hc)
      have hcomma : c ≠ ',' := (hplain c List.mem_cons_self).1
      have hstay : depthAfter depth c = depth := by
        rw [depthAfter_eq, bracketDepth_of_plain hplain, Int.add_zero]
      rw [List.cons_append, topLevelPieces, if_neg fun h => hcomma h.1, hstay, ih hg,
        List.modifyHead_modifyHead]
      rfl

theorem topLevelPieces_intercalate (h : AreTopLevel depth ps) :
    topLevelPieces depth ([','].intercalate ps) = ps := by
  induction h with
  | last hp => rw [List.intercalate_singleton, topLevelPieces_eq_singleton hp]
  | cons hp hdepth hps ih =>
      rw [intercalate_cons hps.ne_nil, topLevelPieces_append_comma hp hdepth, ih]

/-- A text is cut in exactly one way. -/
theorem topLevelPieces_eq_iff :
    topLevelPieces depth s = ps ↔ AreTopLevel depth ps ∧ [','].intercalate ps = s := by
  constructor
  · rintro rfl
    exact ⟨areTopLevel_topLevelPieces depth s, intercalate_topLevelPieces depth s⟩
  · rintro ⟨h, rfl⟩
    exact topLevelPieces_intercalate h

instance (depth : Int) (s : List Char) : Decidable (CommasNested depth s) :=
  decidable_of_iff (topLevelPieces depth s = [s]) <| by
    rw [topLevelPieces_eq_iff]
    constructor
    · rintro ⟨h, -⟩
      cases h <;> assumption
    · exact fun h => ⟨.last h, List.intercalate_singleton⟩

theorem AreTopLevel.nested (h : AreTopLevel 0 ps) : ∀ p ∈ ps, CommasNested 0 p := by
  induction ps with
  | nil => exact nofun
  | cons p ps ih =>
      cases h with
      | last hp => exact List.forall_mem_singleton.2 hp
      | cons hp _ hps => exact List.forall_mem_cons.2 ⟨hp, ih hps⟩

theorem AreTopLevel.depth_eq_zero (h : AreTopLevel 0 ps) :
    ∀ p ∈ ps.dropLast, bracketDepth p = 0 := by
  induction ps with
  | nil => exact nofun
  | cons p ps ih =>
      cases h with
      | last hp => exact nofun
      | cons hp hdepth hps =>
          rw [List.dropLast_cons_of_ne_nil hps.ne_nil]
          exact List.forall_mem_cons.2 ⟨by simpa using hdepth, ih hps⟩

theorem areTopLevel_of_closed (hne : ps ≠ [])
    (h : ∀ p ∈ ps, CommasNested 0 p ∧ bracketDepth p = 0) : AreTopLevel 0 ps := by
  induction ps with
  | nil => exact absurd rfl hne
  | cons p ps ih =>
      obtain ⟨⟨hp, hdepth⟩, hps⟩ := List.forall_mem_cons.1 h
      cases ps with
      | nil => exact .last hp
      | cons q ps => exact .cons hp (by simpa using hdepth) (ih (List.cons_ne_nil q ps) hps)

/-! ## Trimmed pieces -/

theorem AreTopLevel.map_trim (h : AreTopLevel depth ps) : AreTopLevel depth (ps.map trim) := by
  induction h with
  | last hp => exact .last (commasNested_trim.2 hp)
  | cons hp hdepth _ ih => exact .cons (commasNested_trim.2 hp) (by rwa [bracketDepth_trim]) ih

/-- The trimmed pieces are all kept, or all but an empty one at the end. -/
theorem splitTopLevel_cases (s : List Char) :
    (topLevelPieces 0 s).map trim = splitTopLevel s ∨
      (topLevelPieces 0 s).map trim = splitTopLevel s ++ [[]] := by
  unfold splitTopLevel
  dsimp only
  split
  next h =>
      obtain ⟨ps, hps⟩ := List.getLast?_eq_some_iff.1 h
      exact .inr (by rw [hps, List.dropLast_concat])
  next => exact .inl rfl

/-- Pieces that close what they open come back, without the blanks around them. -/
theorem splitTopLevel_intercalate
    (h : ∀ p ∈ ps.map trim, CommasNested 0 p ∧ bracketDepth p = 0)
    (hlast : ∀ p ∈ (ps.map trim).getLast?, p ≠ []) :
    splitTopLevel ([','].intercalate ps) = ps.map trim := by
  by_cases hne : ps = []
  · rw [hne]
    rfl
  · have hpieces : AreTopLevel 0 ps := areTopLevel_of_closed hne fun p hp => by
      have htrim := h (trim p) (List.mem_map_of_mem hp)
      rwa [commasNested_trim, bracketDepth_trim] at htrim
    rw [splitTopLevel, topLevelPieces_intercalate hpieces]
    exact if_neg fun hnil => hlast [] hnil rfl

theorem splitTopLevel_comma_space
    (h : ∀ p ∈ ps, p ≠ [] ∧ trim p = p ∧ CommasNested 0 p ∧ bracketDepth p = 0) :
    splitTopLevel ([',', ' '].intercalate ps) = ps := by
  cases ps with
  | nil => rfl
  | cons p ps =>
      have hspace : ∀ q ∈ ps, (trim ∘ (' ' :: ·)) q = q := fun q hq =>
        (trim_blank_append allBlank_space q).trans (h q (List.mem_cons_of_mem p hq)).2.1
      have htrim : (p :: ps.map (' ' :: ·)).map trim = p :: ps := by
        rw [List.map_cons, List.map_map, (h p List.mem_cons_self).2.1,
          List.map_congr_left hspace, List.map_id']
      rw [intercalate_pair ',' ' ', splitTopLevel_intercalate, htrim]
      · rw [htrim]
        exact fun q hq => (h q hq).2.2
      · rw [htrim]
        exact fun q hq => (h q (List.mem_of_getLast? hq)).1

theorem splitTopLevel_prefix_map_trim (s : List Char) :
    splitTopLevel s <+: (topLevelPieces 0 s).map trim := by
  rcases splitTopLevel_cases s with h | h
  · exact h ▸ List.prefix_rfl
  · exact h ▸ List.prefix_append _ _

theorem splitTopLevel_eq_nil_iff : splitTopLevel s = [] ↔ AllBlank s := by
  constructor
  · intro h
    have hpieces := splitTopLevel_cases s
    have hjoin := intercalate_topLevelPieces 0 s
    rw [h] at hpieces
    cases hp : topLevelPieces 0 s with
    | nil => exact absurd hp (areTopLevel_topLevelPieces 0 s).ne_nil
    | cons p ps =>
        rw [hp] at hpieces hjoin
        obtain ⟨htrim, hps⟩ : trim p = [] ∧ ps = [] := by simpa using hpieces
        rw [hps, List.intercalate_singleton] at hjoin
        exact hjoin ▸ trim_eq_nil_iff.1 htrim
  · intro h
    rw [splitTopLevel, topLevelPieces_eq_singleton (commasNested_of_plain h.plain),
      List.map_singleton, trim_eq_nil_iff.2 h]
    rfl

theorem splitTopLevel_eq_singleton (h : CommasNested 0 p) (hne : trim p ≠ []) :
    splitTopLevel p = [trim p] := by
  rw [splitTopLevel, topLevelPieces_eq_singleton h]
  exact if_neg fun hnil => hne (Option.some.inj hnil)

theorem splitTopLevel_trimStart (s : List Char) : splitTopLevel (trimStart s) = splitTopLevel s := by
  obtain ⟨g, hg, hs⟩ := exists_blank_trimStart s
  have htrim : ∀ ps : List (List Char), (ps.modifyHead (g ++ ·)).map trim = ps.map trim := by
    intro ps
    cases ps with
    | nil => rfl
    | cons p ps => rw [List.modifyHead_cons, List.map_cons, List.map_cons, trim_blank_append hg]
  conv_rhs => rw [hs, splitTopLevel, topLevelPieces_blank_append hg, htrim]
  rfl

/-- What a comma starts behind a text at depth 0 has no part in the pieces of the text. -/
theorem splitTopLevel_prefix_append (hdepth : bracketDepth s = 0) (ht : t.head? = some ',') :
    splitTopLevel s <+: splitTopLevel (s ++ t) := by
  obtain ⟨r, rfl⟩ := List.head?_eq_some_iff.1 ht
  have hpieces : (topLevelPieces 0 (s ++ ',' :: r)).map trim =
      (topLevelPieces 0 s).map trim ++ (topLevelPieces 0 r).map trim := by
    rw [topLevelPieces_append (by rw [hdepth, Int.add_zero]), List.map_append]
  obtain ⟨q, qs, hq⟩ := List.exists_cons_of_ne_nil (areTopLevel_topLevelPieces 0 r).ne_nil
  have hkept : (topLevelPieces 0 s).map trim <+: splitTopLevel (s ++ ',' :: r) := by
    rw [splitTopLevel, hpieces]
    split
    next =>
        rw [List.dropLast_append_of_ne_nil (by rw [hq]; exact List.cons_ne_nil _ _)]
        exact List.prefix_append _ _
    next => exact List.prefix_append _ _
  exact (splitTopLevel_prefix_map_trim s).trans hkept

theorem trim_eq_self_of_mem_splitTopLevel (h : p ∈ splitTopLevel s) :
    trim p = p ∧ CommasNested 0 p := by
  have hpieces := (areTopLevel_topLevelPieces 0 s).map_trim
  have hmem : p ∈ (topLevelPieces 0 s).map trim := (splitTopLevel_prefix_map_trim s).mem h
  obtain ⟨q, -, rfl⟩ := List.mem_map.1 hmem
  exact ⟨trim_trim q, hpieces.nested _ hmem⟩

theorem bracketDepth_of_mem_dropLast (h : p ∈ (splitTopLevel s).dropLast) : bracketDepth p = 0 := by
  have hpieces := (areTopLevel_topLevelPieces 0 s).map_trim
  rcases splitTopLevel_cases s with hs | hs
  · exact hpieces.depth_eq_zero p (hs ▸ h)
  · refine hpieces.depth_eq_zero p ?_
    rw [hs, List.dropLast_concat]
    exact (List.dropLast_sublist _).mem h

/-- What is left of a text without its blanks. -/
def solid (s : List Char) : List Char :=
  s.filter (!isBlank ·)

theorem solid_append (s t : List Char) : solid (s ++ t) = solid s ++ solid t :=
  List.filter_append ..

theorem solid_of_allBlank (h : AllBlank s) : solid s = [] :=
  List.filter_eq_nil_iff.2 fun c hc => by simp [h c hc]

theorem solid_trim (s : List Char) : solid (trim s) = solid s := by
  obtain ⟨a, b, ha, hb, hs⟩ := exists_blank_trim s
  conv_rhs => rw [hs, solid_append, solid_append, solid_of_allBlank ha, solid_of_allBlank hb,
    List.nil_append, List.append_nil]

theorem solid_comma_cons (s : List Char) : solid (',' :: s) = ',' :: solid s :=
  List.filter_cons_of_pos (by decide)

theorem solid_intercalate (ps : List (List Char)) :
    solid ([','].intercalate ps) = [','].intercalate (ps.map solid) := by
  induction ps with
  | nil => rfl
  | cons p ps ih =>
      cases ps with
      | nil => simp
      | cons q ps =>
          have hne : q :: ps ≠ [] := List.cons_ne_nil q ps
          have hmap : (q :: ps).map solid ≠ [] := List.cons_ne_nil _ _
          rw [intercalate_cons hne, solid_append, solid_comma_cons, ih,
            ← intercalate_cons hmap]
          rfl

/-- Joined again, the trimmed pieces lack blanks, and a comma if an empty one at the end was left
out behind another. -/
theorem solid_eq_solid_intercalate (s : List Char) :
    solid s = solid ([','].intercalate (splitTopLevel s)) ∨
      solid s = solid ([','].intercalate (splitTopLevel s)) ++ [','] := by
  have hs : solid s = solid ([','].intercalate ((topLevelPieces 0 s).map trim)) := by
    have hmap : ((topLevelPieces 0 s).map trim).map solid = (topLevelPieces 0 s).map solid := by
      rw [List.map_map]
      exact List.map_congr_left fun p _ => solid_trim p
    conv_lhs => rw [← intercalate_topLevelPieces 0 s]
    rw [solid_intercalate, solid_intercalate, hmap]
  rcases splitTopLevel_cases s with h | h
  · exact .inl (by rw [hs, h])
  · rw [h] at hs
    by_cases hnil : splitTopLevel s = []
    · rw [hnil] at hs ⊢
      exact .inl hs
    · rw [intercalate_concat hnil, solid_append] at hs
      exact .inr hs

/-- A piece of a list, with the blanks that stand around it. -/
structure Padded where
  before : List Char
  piece : List Char
  behind : List Char
  allBlank_before : AllBlank before := by decide
  allBlank_behind : AllBlank behind := by decide
  trim_piece : trim piece = piece := by decide
  bracketDepth_piece : bracketDepth piece = 0 := by decide
  commasNested_piece : CommasNested 0 piece := by decide

namespace Padded

def text (q : Padded) : List Char :=
  q.before ++ (q.piece ++ q.behind)

theorem trim_text (q : Padded) : trim q.text = q.piece := by
  rw [text, trim_blank_append q.allBlank_before, trim_append q.piece q.allBlank_behind,
    q.trim_piece]

end Padded

/-- A text is cut exactly at its commas outside all brackets: those within a part stand in one,
all parts but the last close what they open, and nothing but blanks and the comma in front of an
empty end is lost. Its brackets bound the depths that a count meets. Pieces that are joined come
back. -/
theorem splitTopLevel_exact (s : List Char) :
    (∀ p ∈ splitTopLevel s, trim p = p ∧ CommasNested 0 p) ∧
    (∀ p ∈ (splitTopLevel s).dropLast, bracketDepth p = 0) ∧
    (solid s = solid ([','].intercalate (splitTopLevel s)) ∨
      solid s = solid ([','].intercalate (splitTopLevel s)) ++ [',']) ∧
    (∀ p, p <+: s → (bracketDepth p).natAbs ≤ s.countP fun c => isOpening c || isClosing c) ∧
    ∀ qs : List Padded, (∀ q ∈ qs.getLast?, q.piece ≠ []) →
      splitTopLevel ([','].intercalate (qs.map Padded.text)) = qs.map Padded.piece := by
  refine ⟨fun p hp => trim_eq_self_of_mem_splitTopLevel hp,
    fun p hp => bracketDepth_of_mem_dropLast hp, solid_eq_solid_intercalate s,
    fun p hp => natAbs_bracketDepth_le hp, ?_⟩
  intro qs hlast
  have htrim : (qs.map Padded.text).map trim = qs.map Padded.piece := by
    rw [List.map_map]
    exact List.map_congr_left fun q _ => q.trim_text
  rw [splitTopLevel_intercalate, htrim]
  · rw [htrim]
    exact List.forall_mem_map.2 fun q _ => ⟨q.commasNested_piece, q.bracketDepth_piece⟩
  · intro p hp
    rw [htrim, List.getLast?_map, Option.mem_def, Option.map_eq_some_iff] at hp
    obtain ⟨q, hq, rfl⟩ := hp
    exact hlast q hq

/-- Nested commas, an empty piece in the middle and blanks beyond ASCII. -/
theorem splitTopLevel_exact_aggregate :
    let qs : List Padded :=
      [{ before := [], piece := "{ i32, <2 x i8> } %a".toList, behind := [' '] },
       { before := [], piece := [], behind := [] },
       { before := ['\u3000', '\t'], piece := "ptr byval([2 x i8]) %é".toList, behind := [] }]
    (∀ q ∈ qs.getLast?, q.piece ≠ []) ∧
      splitTopLevel ([','].intercalate (qs.map Padded.text)) = qs.map Padded.piece := by
  intro qs
  have hlast : ∀ q ∈ qs.getLast?, q.piece ≠ [] := by
    rintro q ⟨⟩
    decide
  obtain ⟨-, -, -, -, hjoin⟩ := splitTopLevel_exact ([','].intercalate (qs.map Padded.text))
  exact ⟨hlast, hjoin qs hlast⟩

end IrSurvey.Text
