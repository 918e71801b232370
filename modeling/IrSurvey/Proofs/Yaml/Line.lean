import IrSurvey.Yaml.Layout

/-!
Lines of a text: where the characters of a line stand, and what may stand between the content of one
line and that of the next. Comments, spaces and empty lines are passed over there, and a key may
start behind them.
-/
namespace IrSurvey.Yaml

variable {s r e f z : List Char} {b : Char} {line column offset : Nat} {allowed : Bool}

/-! ## Places -/

/-- Characters that stay on their line. -/
def OnLine (s : List Char) : Prop :=
  ∀ c ∈ s, isBreak c = false

instance (s : List Char) : Decidable (OnLine s) :=
  List.decidableBAll _ s

theorem OnLine.append (hs : OnLine s) (hr : OnLine r) : OnLine (s ++ r) := by
  intro c hc
  rcases List.mem_append.1 hc with h | h
  · exact hs c h
  · exact hr c h

/-- The bytes of characters in UTF-8. -/
def byteLength : List Char → Nat
  | [] => 0
  | c :: s => c.utf8Size + byteLength s

theorem byteLength_cons (c : Char) (s : List Char) :
    byteLength (c :: s) = c.utf8Size + byteLength s :=
  rfl

theorem byteLength_append (s r : List Char) :
    byteLength (s ++ r) = byteLength s + byteLength r := by
  induction s with
  | nil => rw [List.nil_append, byteLength, Nat.zero_add]
  | cons c s ih => rw [List.cons_append, byteLength_cons, byteLength_cons, ih, Nat.add_assoc]

theorem place_append (hs : OnLine s) (line column offset : Nat) (r : List Char) :
    place line column offset (s ++ r) =
      place line column offset s ++ place line (column + s.length) (offset + byteLength s) r := by
  induction s generalizing column offset with
  | nil => rfl
  | cons c s ih =>
      have hc : isBreak c = false := hs c List.mem_cons_self
      have htail := ih (fun d hd => hs d (List.mem_cons_of_mem c hd)) (column + 1)
        (offset + c.utf8Size)
      have hcolumn : column + 1 + s.length = column + (c :: s).length := by
        rw [List.length_cons]
        omega
      have hoffset : offset + c.utf8Size + byteLength s = offset + byteLength (c :: s) := by
        rw [byteLength_cons, Nat.add_assoc]
      rw [List.cons_append, place, place, hc, if_neg Bool.false_ne_true, if_neg Bool.false_ne_true,
        htail, hcolumn, hoffset]
      rfl

theorem place_cons (hb : isBreak b = false) (line column offset : Nat) (r : List Char) :
    place line column offset (b :: r) =
      ⟨b, line, column, offset⟩ :: place line (column + 1) (offset + b.utf8Size) r := by
  rw [place, if_neg (by rw [hb]; exact Bool.false_ne_true)]

theorem place_break_cons (hb : isBreak b = true) (line column offset : Nat) (r : List Char) :
    place line column offset (b :: r) = ⟨b, line, column, offset⟩ :: place (line + 1) 0 0 r := by
  rw [place, if_pos hb]

theorem map_char_place (line column offset : Nat) (s : List Char) :
    (place line column offset s).map Cell.char = s := by
  induction s generalizing line column offset with
  | nil => rfl
  | cons c s ih =>
      rw [place]
      split
      · rw [List.map_cons, ih]
      · rw [List.map_cons, ih]

theorem char_mem_of_mem_place {x : Cell} (hx : x ∈ place line column offset s) : x.char ∈ s := by
  rw [← map_char_place line column offset s]
  exact List.mem_map_of_mem hx

/-! ## Between the contents of two lines -/

def spaces (n : Nat) : List Char :=
  List.replicate n ' '

theorem length_spaces (n : Nat) : (spaces n).length = n :=
  List.length_replicate

theorem onLine_spaces (n : Nat) : OnLine (spaces n) := by
  intro c hc
  rw [List.eq_of_mem_replicate hc]
  rfl

/-- A comment, or nothing. -/
inductive IsComment : List Char → Prop
  | nil : IsComment []
  | sign {s : List Char} : OnLine s → IsComment ('#' :: s)

/-- A line without content. -/
inductive IsFiller : List Char → Prop
  | mk {s : List Char} (n : Nat) : IsComment s → IsFiller (spaces n ++ s)

/-- What may stand behind the content of a line: spaces, and behind one at least a comment. -/
inductive IsRemark : List Char → Prop
  | nil : IsRemark []
  | mk {s : List Char} (n : Nat) : IsComment s → IsRemark (spaces (n + 1) ++ s)

/-- Complete lines without content. -/
inductive AreFillers : List Char → Prop
  | nil : AreFillers []
  | cons {f s : List Char} {b : Char} :
      IsFiller f → isBreak b = true → AreFillers s → AreFillers (f ++ b :: s)

/-- From the end of the content of a line to the start of the next line with content. -/
inductive EndsLine : List Char → Prop
  | mk {f s : List Char} {b : Char} :
      IsRemark f → isBreak b = true → AreFillers s → EndsLine (f ++ b :: s)

/-- From the end of the last content to the end of the text. -/
inductive EndsText : List Char → Prop
  | remark {f : List Char} : IsRemark f → EndsText f
  | lines {e f : List Char} : EndsLine e → IsFiller f → EndsText (e ++ f)

theorem IsRemark.isFiller (h : IsRemark f) : IsFiller f := by
  cases h with
  | nil => exact .mk 0 .nil
  | mk n hs => exact .mk (n + 1) hs

/-! ## Passing over it -/

namespace Layout

theorem skip_space_cons {c : Cell} (hc : c.char = ' ') (allowed : Bool) (s : List Cell) :
    skip false false allowed (c :: s) = skip false false allowed s := by
  have hbreak : c.isBreak = false := by
    rw [Cell.isBreak, hc]
    rfl
  have hmark : c.isOrderMark = false := by
    rw [Cell.isOrderMark, hc]
    exact Bool.and_eq_false_imp.2 fun _ => rfl
  rw [skip, hbreak, hmark, if_neg Bool.false_ne_true, if_neg Bool.false_ne_true,
    if_neg Bool.false_ne_true, if_pos (.inl hc)]

theorem skip_break_cons {c : Cell} (hc : isBreak c.char = true) (comment allowed : Bool)
    (s : List Cell) : skip false comment allowed (c :: s) = skip false false true s := by
  have hbreak : c.isBreak = true := hc
  rw [skip, if_pos hbreak, Bool.not_false, Bool.or_true]

theorem skip_sign_cons {c : Cell} (hc : c.char = '#') (allowed : Bool) (s : List Cell) :
    skip false false allowed (c :: s) = skip false true allowed s := by
  have hbreak : c.isBreak = false := by
    rw [Cell.isBreak, hc]
    rfl
  have hmark : c.isOrderMark = false := by
    rw [Cell.isOrderMark, hc]
    exact Bool.and_eq_false_imp.2 fun _ => rfl
  have hspace : ¬ (c.char = ' ' ∨ (c.char = '\t' ∧ (false = true ∨ ¬ allowed = true))) := by
    rw [hc]
    rintro (h | ⟨h, -⟩) <;> exact absurd h (by decide)
  rw [skip, hbreak, hmark, if_neg Bool.false_ne_true, if_neg Bool.false_ne_true,
    if_neg Bool.false_ne_true, if_neg hspace, if_pos hc]

theorem skip_spaces_append (n : Nat) (allowed : Bool) (line column offset : Nat) (r : List Char) :
    skip false false allowed (place line column offset (spaces n ++ r)) =
      skip false false allowed (place line (column + n) (offset + byteLength (spaces n)) r) := by
  induction n generalizing column offset with
  | zero => rfl
  | succ n ih =>
      have hcolumn : column + 1 + n = column + (n + 1) := by omega
      have hoffset : offset + Char.utf8Size ' ' + byteLength (spaces n) =
          offset + byteLength (spaces (n + 1)) := by
        rw [spaces, spaces, List.replicate_succ, byteLength_cons, Nat.add_assoc]
      have hcons : spaces (n + 1) ++ r = ' ' :: (spaces n ++ r) := rfl
      rw [hcons, place_cons rfl, skip_space_cons rfl, ih, hcolumn, hoffset]

/-- Inside a comment everything up to the break is passed over. -/
theorem skip_comment_append (hs : OnLine s) (hb : isBreak b = true) (r : List Char) :
    skip false true allowed (place line column offset (s ++ b :: r)) =
      skip false false true (place (line + 1) 0 0 r) := by
  induction s generalizing column offset with
  | nil => rw [List.nil_append, place_break_cons hb, skip_break_cons hb]
  | cons c s ih =>
      have hc : isBreak c = false := hs c List.mem_cons_self
      rw [List.cons_append, place_cons hc, skip, if_neg (by simp [Cell.isBreak, hc]), if_pos rfl]
      exact ih fun d hd => hs d (List.mem_cons_of_mem c hd)

theorem skip_comment_end (hs : OnLine s) :
    (skip false true allowed (place line column offset s)).2 = [] := by
  induction s generalizing column offset with
  | nil => rfl
  | cons c s ih =>
      have hc : isBreak c = false := hs c List.mem_cons_self
      rw [place_cons hc, skip, if_neg (by simp [Cell.isBreak, hc]), if_pos rfl]
      exact ih fun d hd => hs d (List.mem_cons_of_mem c hd)

theorem skip_filler_append (hf : IsFiller f) (hb : isBreak b = true) (r : List Char) :
    skip false false allowed (place line column offset (f ++ b :: r)) =
      skip false false true (place (line + 1) 0 0 r) := by
  obtain ⟨n, hs⟩ := hf
  rw [List.append_assoc, skip_spaces_append]
  cases hs with
  | nil => rw [List.nil_append, place_break_cons hb, skip_break_cons hb]
  | sign hs => rw [List.cons_append, place_cons rfl, skip_sign_cons rfl, skip_comment_append hs hb]

theorem skip_filler_end (hf : IsFiller f) :
    (skip false false allowed (place line column offset f)).2 = [] := by
  obtain ⟨n, hs⟩ := hf
  rw [skip_spaces_append]
  cases hs with
  | nil => rfl
  | sign hs => rw [place_cons rfl, skip_sign_cons rfl, skip_comment_end hs]

theorem skip_fillers_append (hs : AreFillers s) (line : Nat) (r : List Char) :
    ∃ line', line ≤ line' ∧ skip false false true (place line 0 0 (s ++ r)) =
      skip false false true (place line' 0 0 r) := by
  induction hs generalizing line with
  | nil => exact ⟨line, Nat.le_refl line, rfl⟩
  | @cons f s b hf hb _ ih =>
      obtain ⟨line', hline, hskip⟩ := ih (line + 1)
      refine ⟨line', Nat.le_of_succ_le hline, ?_⟩
      rw [List.append_assoc, List.cons_append, skip_filler_append hf hb, hskip]

/-- Behind the end of a line a key may start. -/
theorem skip_endsLine_append (he : EndsLine e) (allowed : Bool) (line column offset : Nat)
    (r : List Char) :
    ∃ line', line < line' ∧ skip false false allowed (place line column offset (e ++ r)) =
      skip false false true (place line' 0 0 r) := by
  obtain ⟨hf, hb, hs⟩ := he
  obtain ⟨line', hline, hskip⟩ := skip_fillers_append hs (line + 1) r
  refine ⟨line', hline, ?_⟩
  rw [List.append_assoc, List.cons_append, skip_filler_append hf.isFiller hb, hskip]

theorem skip_endsText (hz : EndsText z) (allowed : Bool) (line column offset : Nat) :
    (skip false false allowed (place line column offset z)).2 = [] := by
  cases hz with
  | remark hf => exact skip_filler_end hf.isFiller
  | lines he hf =>
      obtain ⟨line', -, hskip⟩ := skip_endsLine_append he allowed line column offset _
      rw [hskip, skip_filler_end hf]

end Layout
end IrSurvey.Yaml
