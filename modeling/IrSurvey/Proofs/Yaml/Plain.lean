import IrSurvey.Proofs.Text.Leading
import IrSurvey.Proofs.Yaml.Line

/-!
Plain scalars on one line: words with gaps between them, read as they stand there in front of
whatever ends them. Such a scalar also takes the spacing behind it, which changes nothing for what
comes next.
-/
namespace IrSurvey.Yaml
open Text

variable {s t r w e z : List Char} {x b : Char} {line column offset least : Nat}

/-- A gap or a line break. -/
def isSpacing (c : Char) : Bool :=
  isGap c || isBreak c

theorem isBreak_eq_false_of_isSpacing (h : isSpacing x = false) : isBreak x = false :=
  (Bool.or_eq_false_iff.1 h).2

theorem isBreak_eq_false_of_isGap (h : isGap x = true) : isBreak x = false := by
  simp only [isGap, Bool.or_eq_true, decide_eq_true_eq] at h
  rcases h with rfl | rfl <;> rfl

/-! ## What ends a scalar -/

/-- Up to a comment, a line that is not indented enough, a colon or the end there is nothing but
spaces and breaks. -/
inductive Stops (least : Nat) : List Cell → Prop
  | text : Stops least []
  | comment {c : Cell} {r : List Cell} : c.char = '#' → Stops least (c :: r)
  | shallow {c : Cell} {r : List Cell} : c.isSpacing = false → c.column < least →
      Stops least (c :: r)
  | colon {c : Cell} {r : List Cell} : c.char = ':' → endsWord r = true → Stops least (c :: r)
  | blank {c : Cell} {r : List Cell} : c.char = ' ' ∨ isBreak c.char = true → Stops least r →
      Stops least (c :: r)

/-- A plain scalar ends in front of this: the last word does, and no other word follows. -/
structure Ends (least : Nat) (r : List Cell) : Prop where
  word : Plain.word? false r = some ([], r)
  stops : Stops least r

/-- A plain scalar ends in front of these characters, wherever they stand. -/
def EndsAt (least : Nat) (r : List Char) : Prop :=
  ∀ line column offset, Ends least (place line column offset r)

theorem isSpacing_of_blank {c : Cell} (h : c.char = ' ' ∨ isBreak c.char = true) :
    c.isSpacing = true := by
  rcases h with h | h
  · rw [Cell.isSpacing, Cell.isGap, h]
    rfl
  · exact Bool.or_eq_true_iff.2 (.inr h)

theorem endsWord_place (h : ∀ c ∈ s.head?, isSpacing c = true) (line column offset : Nat) :
    endsWord (place line column offset s) = true := by
  cases s with
  | nil => rfl
  | cons c s => exact h c rfl

theorem word?_of_endsWord {r : List Cell} (h : endsWord r = true) :
    Plain.word? false r = some ([], r) := by
  cases r with
  | nil => rfl
  | cons c r =>
      have hc : c.isSpacing = true := h
      rw [Plain.word?, if_pos hc]

theorem word?_colon {c : Cell} {r : List Cell} (hc : c.char = ':') (hr : endsWord r = true) :
    Plain.word? false (c :: r) = some ([], c :: r) := by
  have hspacing : ¬ c.isSpacing = true := by
    rw [Cell.isSpacing, Cell.isGap, Cell.isBreak, hc]
    decide
  have hends : Plain.endsBefore false c r = true := by
    rw [Plain.endsBefore, hr, hc]
    rfl
  rw [Plain.word?, if_neg hspacing, if_neg (by simp [Plain.leans]), if_pos hends]

theorem Stops.mono {least' : Nat} {r : List Cell} (h : Stops least r) (hleast : least ≤ least') :
    Stops least' r := by
  induction h with
  | text => exact .text
  | comment hc => exact .comment hc
  | shallow hc hcolumn => exact .shallow hc (Nat.lt_of_lt_of_le hcolumn hleast)
  | colon hc hr => exact .colon hc hr
  | blank hc _ ih => exact .blank hc ih

theorem EndsAt.mono {least' : Nat} (h : EndsAt least r) (hleast : least ≤ least') :
    EndsAt least' r := fun line column offset =>
  ⟨(h line column offset).word, (h line column offset).stops.mono hleast⟩

theorem Stops.spaces_append (h : ∀ column offset, Stops least (place line column offset r))
    (n column offset : Nat) : Stops least (place line column offset (spaces n ++ r)) := by
  induction n generalizing column offset with
  | zero => exact h column offset
  | succ n ih =>
      have hcons : spaces (n + 1) ++ r = ' ' :: (spaces n ++ r) := rfl
      rw [hcons, place_cons rfl]
      exact .blank (.inl rfl) (ih (column + 1) (offset + Char.utf8Size ' '))

theorem Stops.filler_append {f : List Char} (hf : IsFiller f) (hb : isBreak b = true)
    (h : Stops least (place (line + 1) 0 0 r)) :
    Stops least (place line column offset (f ++ b :: r)) := by
  obtain ⟨n, hs⟩ := hf
  rw [List.append_assoc]
  refine spaces_append (fun column offset => ?_) n column offset
  cases hs with
  | nil =>
      rw [List.nil_append, place_break_cons hb]
      exact .blank (.inr hb) h
  | sign =>
      rw [List.cons_append, place_cons rfl]
      exact .comment rfl

theorem Stops.filler {f : List Char} (hf : IsFiller f) :
    Stops least (place line column offset f) := by
  obtain ⟨n, hs⟩ := hf
  refine spaces_append (fun column offset => ?_) n column offset
  cases hs with
  | nil => exact .text
  | sign =>
      rw [place_cons rfl]
      exact .comment rfl

theorem Stops.endsLine_append (he : EndsLine e)
    (h : ∀ line, Stops least (place line 0 0 r)) (line column offset : Nat) :
    Stops least (place line column offset (e ++ r)) := by
  obtain ⟨hf, hb, hs⟩ := he
  rw [List.append_assoc, List.cons_append]
  refine filler_append hf.isFiller hb ?_
  induction hs generalizing line with
  | nil => exact h (line + 1)
  | @cons f s b hf hb _ ih =>
      rw [List.append_assoc, List.cons_append]
      exact filler_append hf hb (ih (line + 1))

/-- A remark starts with a space. -/
theorem IsRemark.head? {f : List Char} (h : IsRemark f) : ∀ c ∈ f.head?, isSpacing c = true := by
  cases h with
  | nil => exact nofun
  | mk n _ =>
      rintro c ⟨⟩
      rfl

theorem EndsLine.head? (h : EndsLine e) (r : List Char) :
    ∀ c ∈ (e ++ r).head?, isSpacing c = true := by
  obtain ⟨hf, hb, -⟩ := h
  cases hf with
  | nil =>
      rintro c ⟨⟩
      exact Bool.or_eq_true_iff.2 (.inr hb)
  | mk n _ =>
      rintro c ⟨⟩
      rfl

/-- In front of the next line with content a scalar ends if that line is not indented enough. -/
theorem endsAt_endsLine (he : EndsLine e) {n : Nat} (hn : n < least) (hx : isSpacing x = false)
    (r : List Char) : EndsAt least (e ++ (spaces n ++ x :: r)) := by
  intro line column offset
  refine ⟨word?_of_endsWord (endsWord_place (he.head? _) line column offset), ?_⟩
  refine Stops.endsLine_append he (fun line => ?_) line column offset
  rw [place_append (onLine_spaces n), length_spaces,
    place_cons (isBreak_eq_false_of_isSpacing hx), Nat.zero_add]
  have hstop : Stops least (⟨x, line, n, 0 + byteLength (spaces n)⟩ ::
      place line (n + 1) (0 + byteLength (spaces n) + x.utf8Size) r) := .shallow hx hn
  have hblank : ∀ c ∈ place line 0 0 (spaces n), c.char = ' ' := fun c hc =>
    List.eq_of_mem_replicate (char_mem_of_mem_place hc)
  generalize place line 0 0 (spaces n) = run at hblank
  induction run with
  | nil => exact hstop
  | cons c run ih =>
      exact .blank (.inl (hblank c List.mem_cons_self))
        (ih fun d hd => hblank d (List.mem_cons_of_mem c hd))

theorem endsAt_endsText (hz : EndsText z) : EndsAt least z := by
  intro line column offset
  cases hz with
  | remark hf =>
      exact ⟨word?_of_endsWord (endsWord_place hf.head? line column offset),
        .filler hf.isFiller⟩
  | lines he hf =>
      exact ⟨word?_of_endsWord (endsWord_place (he.head? _) line column offset),
        .endsLine_append he (fun _ => .filler hf) line column offset⟩

/-- In front of the colon of its key a scalar ends. -/
theorem endsAt_colon (n : Nat) (hr : ∀ c ∈ r.head?, isSpacing c = true) :
    EndsAt least (spaces n ++ ':' :: r) := by
  have hcolon : ∀ line column offset, endsWord (place line (column + 1) (offset + 1) r) = true :=
    fun line column offset => endsWord_place hr line (column + 1) (offset + 1)
  intro line column offset
  refine ⟨?_, Stops.spaces_append (fun column offset => ?_) n column offset⟩
  · cases n with
    | zero => exact word?_colon rfl (hcolon line column offset)
    | succ n => exact word?_of_endsWord rfl
  · exact .colon rfl (hcolon line column offset)

/-! ## Plain scalars -/

theorem takeWhile_solid {c : Cell} (hc : c.isSpacing = false) (r : List Cell) :
    (c :: r).takeWhile Cell.isSpacing = [] :=
  List.takeWhile_cons_of_neg (by simp [hc])

theorem dropWhile_solid {c : Cell} (hc : c.isSpacing = false) (r : List Cell) :
    (c :: r).dropWhile Cell.isSpacing = c :: r :=
  List.dropWhile_cons_of_neg (by simp [hc])

theorem isSpacing_of_char {c : Cell} {x : Char} (hc : c.char = x) (hx : isSpacing x = false) :
    c.isSpacing = false := by
  show isSpacing c.char = false
  rw [hc, hx]

/-- What stops a scalar has only spaces and breaks in front, and no word starts behind them. -/
theorem Stops.span {r : List Cell} (h : Stops least r) :
    (∀ c ∈ r.takeWhile Cell.isSpacing, c.char = ' ' ∨ isBreak c.char = true) ∧
      ∀ d t, r.dropWhile Cell.isSpacing = d :: t →
        Plain.stops false least (d :: t) = true ∨ Plain.endsBefore false d t = true := by
  induction h with
  | text => exact ⟨nofun, nofun⟩
  | @comment c r hc =>
      have hsolid := isSpacing_of_char hc (by decide)
      rw [takeWhile_solid hsolid, dropWhile_solid hsolid]
      refine ⟨nofun, ?_⟩
      rintro d t ⟨⟩
      exact .inl (by simp [Plain.stops, hc])
  | @shallow c r hsolid hcolumn =>
      rw [takeWhile_solid hsolid, dropWhile_solid hsolid]
      refine ⟨nofun, ?_⟩
      rintro d t ⟨⟩
      exact .inl (by simp [Plain.stops, hcolumn])
  | @colon c r hc hr =>
      have hsolid := isSpacing_of_char hc (by decide)
      rw [takeWhile_solid hsolid, dropWhile_solid hsolid]
      refine ⟨nofun, ?_⟩
      rintro d t ⟨⟩
      exact .inr (by simp [Plain.endsBefore, hc, hr])
  | @blank c r hc _ ih =>
      rw [List.takeWhile_cons_of_pos (isSpacing_of_blank hc),
        List.dropWhile_cons_of_pos (isSpacing_of_blank hc)]
      exact ⟨List.forall_mem_cons.2 ⟨hc, ih.1⟩, ih.2⟩

/-- The spacing that a scalar takes is passed over anyway. -/
theorem Stops.skip {r : List Cell} (h : Stops least r) (allowed : Bool) :
    Layout.skip false false (allowed || (r.takeWhile Cell.isSpacing).any Cell.isBreak)
        (r.dropWhile Cell.isSpacing) =
      Layout.skip false false allowed r := by
  have hsolid : ∀ {c : Cell} (r : List Cell) (allowed : Bool), c.isSpacing = false →
      Layout.skip false false (allowed || ((c :: r).takeWhile Cell.isSpacing).any Cell.isBreak)
        ((c :: r).dropWhile Cell.isSpacing) = Layout.skip false false allowed (c :: r) := by
    intro c r allowed hc
    rw [takeWhile_solid hc, dropWhile_solid hc, List.any_nil, Bool.or_false]
  induction h generalizing allowed with
  | text =>
      rw [List.takeWhile_nil, List.any_nil, Bool.or_false]
      rfl
  | @comment c r hc => exact hsolid r allowed (isSpacing_of_char hc (by decide))
  | @shallow c r hc => exact hsolid r allowed hc
  | @colon c r hc => exact hsolid r allowed (isSpacing_of_char hc (by decide))
  | @blank c r hc _ ih =>
      rw [List.takeWhile_cons_of_pos (isSpacing_of_blank hc),
        List.dropWhile_cons_of_pos (isSpacing_of_blank hc), List.any_cons, ← Bool.or_assoc]
      rcases hc with hc | hc
      · have hbreak : c.isBreak = false := by
          rw [Cell.isBreak, hc]
          rfl
        rw [hbreak, Bool.or_false, ih, Layout.skip_space_cons hc]
      · have hbreak : c.isBreak = true := hc
        rw [hbreak, Bool.or_true, ih, Layout.skip_break_cons hc]

/-- Characters without spacing that do not end in a colon. -/
structure IsWord (w : List Char) : Prop where
  ne_nil : w ≠ []
  solid : ∀ c ∈ w, isSpacing c = false
  getLast? : w.getLast? ≠ some ':'

/-- Words with gaps between them. Behind a gap none starts with the sign of a comment. -/
inductive AreWords : List Char → Prop
  | one {w : List Char} : IsWord w → AreWords w
  | cons {w g s : List Char} : IsWord w → g ≠ [] → (∀ c ∈ g, isGap c = true) → AreWords s →
      s.head? ≠ some '#' → AreWords (w ++ (g ++ s))

/-- A solid character that is no colon in front of spacing. -/
structure StartsWord (x : Char) (s : List Char) : Prop where
  solid : isSpacing x = false
  colon : x = ':' → ∃ d v, s = d :: v ∧ isSpacing d = false

theorem StartsWord.append (h : StartsWord x s) (r : List Char) : StartsWord x (s ++ r) where
  solid := h.solid
  colon hx := by
    obtain ⟨d, v, rfl, hd⟩ := h.colon hx
    exact ⟨d, v ++ r, rfl, hd⟩

theorem getLast?_of_cons (h : (x :: w).getLast? ≠ some ':') : w.getLast? ≠ some ':' := by
  cases w with
  | nil => exact nofun
  | cons d w => rwa [List.getLast?_cons_cons] at h

theorem startsWord (hw : ∀ c ∈ x :: w, isSpacing c = false) (hlast : (x :: w).getLast? ≠ some ':') :
    StartsWord x w := by
  refine ⟨hw x List.mem_cons_self, ?_⟩
  rintro rfl
  cases w with
  | nil => exact absurd rfl hlast
  | cons d v => exact ⟨d, v, rfl, hw d (.tail _ List.mem_cons_self)⟩

theorem IsWord.exists_cons (h : IsWord w) : ∃ c u, w = c :: u ∧ StartsWord c u := by
  obtain ⟨c, u, rfl⟩ := List.exists_cons_of_ne_nil h.ne_nil
  exact ⟨c, u, rfl, startsWord h.solid h.getLast?⟩

theorem AreWords.exists_cons (h : AreWords s) : ∃ c u, s = c :: u ∧ StartsWord c u := by
  cases h with
  | one hw => exact hw.exists_cons
  | cons hw =>
      obtain ⟨c, u, rfl, hc⟩ := hw.exists_cons
      exact ⟨c, _, rfl, hc.append _⟩

theorem IsWord.onLine (h : IsWord w) : OnLine w := fun c hc =>
  isBreak_eq_false_of_isSpacing (h.solid c hc)

theorem onLine_gap (hg : ∀ c ∈ s, isGap c = true) : OnLine s := fun c hc =>
  isBreak_eq_false_of_isGap (hg c hc)

theorem AreWords.onLine (h : AreWords s) : OnLine s := by
  induction h with
  | one hw => exact hw.onLine
  | cons hw _ hg _ _ ih => exact hw.onLine.append ((onLine_gap hg).append ih)

/-! ## Words as they are read -/

/-- A word goes on behind its first character. -/
theorem StartsWord.endsBefore (h : StartsWord x s) (line column offset column' offset' : Nat)
    (r : List Cell) :
    Plain.endsBefore false ⟨x, line, column, offset⟩ (place line column' offset' s ++ r) =
      false := by
  by_cases hx : x = ':'
  · obtain ⟨d, v, rfl, hd⟩ := h.colon hx
    rw [place_cons (isBreak_eq_false_of_isSpacing hd)]
    have hword : endsWord ((⟨d, line, column', offset'⟩ ::
        place line (column' + 1) (offset' + d.utf8Size) v) ++ r) = false := hd
    rw [Plain.endsBefore, hword, Bool.and_false]
    rfl
  · simp [Plain.endsBefore, hx]

theorem word?_append {r : List Cell} (hw : ∀ c ∈ w, isSpacing c = false)
    (hlast : w.getLast? ≠ some ':') (hr : Plain.word? false r = some ([], r))
    (line column offset : Nat) :
    Plain.word? false (place line column offset w ++ r) = some (w, r) := by
  induction w generalizing column offset with
  | nil => exact hr
  | cons c w ih =>
      have hstart := startsWord hw hlast
      have htail := ih (fun d hd => hw d (List.mem_cons_of_mem c hd)) (getLast?_of_cons hlast)
        (column + 1) (offset + c.utf8Size)
      have hsolid : (Cell.mk c line column offset).isSpacing = false := hstart.solid
      have hleans : Plain.leans false ⟨c, line, column, offset⟩
          (place line (column + 1) (offset + c.utf8Size) w ++ r) = false := rfl
      rw [place_cons (isBreak_eq_false_of_isSpacing hstart.solid), List.cons_append, Plain.word?,
        hsolid, hleans, hstart.endsBefore, if_neg Bool.false_ne_true, if_neg Bool.false_ne_true,
        if_neg Bool.false_ne_true, htail]
      rfl

/-- A plain scalar ends with its word. -/
theorem Stops.read? {c : Cell} {u r : List Cell} (hword : Plain.word? false u = some (w, r))
    (hr : Stops least r) :
    Plain.read? false least c u =
      some (c.char :: w, (r.takeWhile Cell.isSpacing).any Cell.isBreak,
        r.dropWhile Cell.isSpacing) := by
  obtain ⟨hblank, hstop⟩ := hr.span
  have htab : Plain.hasStrayTab least (r.takeWhile Cell.isSpacing) = false := by
    refine List.any_eq_false.2 fun d hd => ?_
    have hd' := hblank d ((List.dropWhile_suffix _).subset hd)
    intro h
    have htab : d.char = '\t' := (Bool.and_eq_true_iff.1 h).1 |> of_decide_eq_true
    rw [htab] at hd'
    rcases hd' with h | h <;> exact absurd h (by decide)
  rw [Plain.read?]
  split
  next h =>
      rw [hword] at h
      cases h
  next w' r' h =>
      rw [hword] at h
      cases h
      simp only [htab, Bool.false_eq_true, if_false]
      split
      next h => rw [h]
      next d t h =>
          rw [h]
          rcases hstop d t h with hstop | hends
          · rw [if_pos hstop]
          · have hleans : Plain.leans false d t = false := rfl
            rw [hleans, if_neg Bool.false_ne_true, if_pos hends, ite_self]

theorem joint_eq_self (hs : OnLine s) : joint s = s := by
  have hfilter : s.filter isBreak = [] := List.filter_eq_nil_iff.2 fun c hc => by simp [hs c hc]
  rw [joint, hfilter]

/-- A tab is stray only behind a break. -/
theorem hasStrayTab_eq_false {g : List Cell} (hg : OnLine (g.map Cell.char)) :
    Plain.hasStrayTab least g = false := by
  have hnone : g.dropWhile (!Cell.isBreak ·) = [] := by
    refine List.dropWhile_eq_nil_iff.2 fun a ha => ?_
    have hbreak : a.isBreak = false := hg a.char (List.mem_map_of_mem ha)
    rw [hbreak]
    rfl
  rw [Plain.hasStrayTab, hnone]
  rfl

/-- Inside of a line nothing but a comment stops a scalar. -/
theorem stops_eq_false {d : Cell} (hcomment : d.char ≠ '#') (hcolumn : d.column ≠ 0)
    (hleast : least ≤ d.column) (v : List Cell) : Plain.stops false least (d :: v) = false := by
  have hmarker : ∀ sign, isMarker sign (d :: v) = false := by
    intro sign
    rcases v with _ | ⟨a, _ | ⟨b, v⟩⟩
    · rfl
    · rfl
    · simp [isMarker, hcolumn]
  simp [Plain.stops, atMarker, hmarker, hcomment, hleast]

/-- A plain scalar goes on behind a gap. -/
theorem read?_gap_append {c d : Cell} {u g v : List Cell}
    (hword : Plain.word? false u = some (w, g ++ d :: v)) (hg : ∀ a ∈ g, a.isGap = true)
    (hd : d.isSpacing = false) (hstops : Plain.stops false least (d :: v) = false)
    (hends : Plain.endsBefore false d v = false) :
    Plain.read? false least c u = (Plain.read? false least d v).map fun (s, broken, r) =>
      (c.char :: w ++ g.map Cell.char ++ s, broken, r) := by
  have hspacing : ∀ a ∈ g, a.isSpacing = true := fun a ha => Bool.or_eq_true_iff.2 (.inl (hg a ha))
  have hrun : (g ++ d :: v).takeWhile Cell.isSpacing = g := takeWhile_append_cons hspacing hd
  have hrest : (g ++ d :: v).dropWhile Cell.isSpacing = d :: v := dropWhile_append_cons hspacing hd
  have hline : OnLine (g.map Cell.char) := onLine_gap (List.forall_mem_map.2 hg)
  have hleans : Plain.leans false d v = false := rfl
  rw [Plain.read?]
  split
  next h =>
      rw [hword] at h
      cases h
  next w' r' h =>
      rw [hword] at h
      cases h
      simp only [hrun, hasStrayTab_eq_false hline, Bool.false_eq_true, if_false]
      split
      next h =>
          rw [hrest] at h
          cases h
      next d' v' h =>
          rw [hrest] at h
          cases h
          rw [hstops, hleans, hends, if_neg Bool.false_ne_true, if_neg Bool.false_ne_true,
            if_neg Bool.false_ne_true, joint_eq_self hline]

theorem endsWord_gap (hne : s ≠ []) (hs : ∀ c ∈ s, isGap c = true) (line column offset : Nat)
    (r : List Cell) : endsWord (place line column offset s ++ r) = true := by
  obtain ⟨a, s, rfl⟩ := List.exists_cons_of_ne_nil hne
  have ha : isGap a = true := hs a List.mem_cons_self
  rw [place_cons (isBreak_eq_false_of_isGap ha)]
  exact Bool.or_eq_true_iff.2 (.inl ha)

/-- The words of a line are read as they stand there. -/
theorem AreWords.read? (h : AreWords s) (hs : s = x :: t) {r : List Cell} (hr : Ends least r)
    (line column offset : Nat) (hleast : least ≤ column + 1) :
    Plain.read? false least ⟨x, line, column, offset⟩
        (place line (column + 1) (offset + x.utf8Size) t ++ r) =
      some (s, (r.takeWhile Cell.isSpacing).any Cell.isBreak, r.dropWhile Cell.isSpacing) := by
  induction h generalizing x t column offset with
  | @one w hw =>
      subst hs
      have hword := word?_append (List.forall_mem_cons.1 hw.solid).2 (getLast?_of_cons hw.getLast?)
        hr.word line (column + 1) (offset + x.utf8Size)
      exact Stops.read? hword hr.stops
  | @cons w g s hw hne hg hwords hcomment ih =>
      obtain ⟨y, u, rfl, -⟩ := hw.exists_cons
      rw [List.cons_append] at hs
      obtain ⟨rfl, rfl⟩ := List.cons.inj hs
      obtain ⟨d, v, rfl, hd⟩ := hwords.exists_cons
      have hu : ∀ c ∈ u, isSpacing c = false := (List.forall_mem_cons.1 hw.solid).2
      have huLine : OnLine u := fun c hc => isBreak_eq_false_of_isSpacing (hu c hc)
      -- where the gap and the next word stand
      generalize hcolumn' : column + 1 + u.length = column'
      generalize hoffset' : offset + y.utf8Size + byteLength u = offset'
      generalize hcolumn'' : column' + g.length = column''
      generalize hoffset'' : offset' + byteLength g = offset''
      have hsolid : (Cell.mk d line column'' offset'').isSpacing = false := hd.solid
      have hplace : place line (column + 1) (offset + y.utf8Size) (u ++ (g ++ d :: v)) ++ r =
          place line (column + 1) (offset + y.utf8Size) u ++
            (place line column' offset' g ++ ⟨d, line, column'', offset''⟩ ::
              (place line (column'' + 1) (offset'' + d.utf8Size) v ++ r)) := by
        rw [place_append huLine, hcolumn', hoffset', place_append (onLine_gap hg), hcolumn'',
          hoffset'', place_cons (isBreak_eq_false_of_isSpacing hd.solid), List.append_assoc,
          List.append_assoc, List.cons_append]
      have hword : ∀ r, Plain.word? false (place line (column + 1) (offset + y.utf8Size) u ++
          (place line column' offset' g ++ r)) = some (u, place line column' offset' g ++ r) :=
        fun r => word?_append hu (getLast?_of_cons hw.getLast?)
          (word?_of_endsWord (endsWord_gap hne hg line column' offset' r)) line (column + 1)
          (offset + y.utf8Size)
      have hgap : ∀ c ∈ place line column' offset' g, c.isGap = true := fun c hc =>
        hg c.char (char_mem_of_mem_place hc)
      have hstops : ∀ v, Plain.stops false least (⟨d, line, column'', offset''⟩ :: v) = false := by
        have hcolumn : column'' ≠ 0 := by omega
        have hleast' : least ≤ column'' := by omega
        exact stops_eq_false (fun h => hcomment (congrArg some h)) hcolumn hleast'
      rw [hplace, read?_gap_append (hword _) hgap hsolid (hstops _) (hd.endsBefore ..),
        ih rfl column'' offset'' (by omega), map_char_place]
      simp only [Option.map_some, List.cons_append, List.append_assoc]

end IrSurvey.Yaml
