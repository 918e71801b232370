import IrSurvey.Proofs.Yaml.Quoted

/-!
The ways to write a scalar on one line. Each is read as one lexeme with the text of the scalar, and
what comes next is what stands behind it.
-/
namespace IrSurvey.Yaml
open Text

variable {s r u w : List Char} {x : Char} {line column offset least : Nat} {style : Style}
  {text : String}

/-- The signs that start no plain scalar. -/
def signs : List Char :=
  [',', '[', ']', '\x7b', '\x7d', '#', '&', '*', '!', '|', '>', '\'', '"', '%', '@', '\x60',
    '\ufeff']

/-- The signs that start a plain scalar only in front of another character. -/
def leads : List Char :=
  ['-', '?', ':', '.']

/-- Words that are no sign and do not start with one. -/
structure IsPlain (s : List Char) : Prop where
  words : AreWords s
  head : ∀ c ∈ s.head?, c ∉ signs
  next : ∀ c u, s = c :: u → c ∈ leads → ∃ d v, u = d :: v ∧ isSpacing d = false ∧ d ≠ c

/-- A word that is a plain scalar, as a check. -/
def isPlainWord : List Char → Bool
  | [] => false
  | c :: s =>
    (c :: s).all (fun x => !isSpacing x && x ≠ ':') && c ∉ signs &&
      (c ∉ leads || s.head?.any (· ≠ c))

theorem isPlain_of_isPlainWord (h : isPlainWord s = true) : IsPlain s := by
  cases s with
  | nil => cases h
  | cons c s =>
      simp only [isPlainWord, Bool.and_eq_true, Bool.or_eq_true, List.all_eq_true,
        Bool.not_eq_true', decide_eq_true_eq] at h
      obtain ⟨⟨hsolid, hsign⟩, hnext⟩ := h
      have hlast : (c :: s).getLast? ≠ some ':' := fun h =>
        (hsolid _ (List.mem_of_getLast? h)).2 rfl
      refine ⟨.one ⟨List.cons_ne_nil c s, fun x hx => (hsolid x hx).1, hlast⟩, ?_, ?_⟩
      · rintro x ⟨⟩
        exact hsign
      · rintro x u ⟨⟩ hx
        have hother := hnext.resolve_left fun h => h hx
        cases s with
        | nil => cases hother
        | cons d v =>
            exact ⟨d, v, rfl, (hsolid d (.tail c List.mem_cons_self)).1, of_decide_eq_true hother⟩

/-- How a scalar may be written. -/
inductive Written : Style → String → List Char → Prop
  | plain {s : List Char} : IsPlain s → Written .plain (String.ofList s) s
  | double {s : List Char} {ws : List (List Char)} : List.Forall₂ Quoted.Spells s ws →
      Written .quoted (String.ofList s) ('"' :: (ws.flatten ++ ['"']))
  | single {s : List Char} : OnLine s →
      Written .quoted (String.ofList s) ('\'' :: (s.flatMap Quoted.doubled ++ ['\'']))

/-- A character that is not passed over between the contents of lines. -/
structure Starts (x : Char) : Prop where
  solid : isSpacing x = false
  comment : x ≠ '#'
  mark : x ≠ '\ufeff'

theorem Starts.isBreak (h : Starts x) : isBreak x = false :=
  isBreak_eq_false_of_isSpacing h.solid

theorem Starts.skip (h : Starts x) (allowed : Bool) (line column offset : Nat) (s : List Cell) :
    Layout.skip false false allowed (⟨x, line, column, offset⟩ :: s) =
      (allowed, ⟨x, line, column, offset⟩ :: s) := by
  have hbreak : (Cell.mk x line column offset).isBreak = false := h.isBreak
  have hmark : (Cell.mk x line column offset).isOrderMark = false := by
    simp [Cell.isOrderMark, h.mark]
  have hgap := (Bool.or_eq_false_iff.1 h.solid).1
  simp only [isGap, Bool.or_eq_false_iff, decide_eq_false_iff_not] at hgap
  rw [Layout.skip, hbreak, hmark, if_neg Bool.false_ne_true, if_neg Bool.false_ne_true,
    if_neg Bool.false_ne_true, if_neg, if_neg h.comment]
  rintro (hspace | ⟨htab, -⟩)
  · exact hgap.1 hspace
  · exact hgap.2 htab

theorem Written.exists_cons (h : Written style text w) : ∃ x u, w = x :: u ∧ Starts x := by
  cases h with
  | plain hs =>
      obtain ⟨x, u, rfl, hx⟩ := hs.words.exists_cons
      have hsign := hs.head x rfl
      refine ⟨x, u, rfl, hx.solid, ?_, ?_⟩
      · rintro rfl
        exact hsign (by decide)
      · rintro rfl
        exact hsign (by decide)
  | double => exact ⟨_, _, rfl, by decide, by decide, by decide⟩
  | single => exact ⟨_, _, rfl, by decide, by decide, by decide⟩

/-! ## Lexemes -/

theorem isMarker_eq_false {c : Cell} {sign : Char} {s : List Cell}
    (h : c.char = sign → ∃ a t, s = a :: t ∧ a.char ≠ sign) : isMarker sign (c :: s) = false := by
  by_cases hc : c.char = sign
  · obtain ⟨a, t, rfl, ha⟩ := h hc
    rcases t with _ | ⟨b, t⟩
    · rfl
    · simp [isMarker, ha]
  · rcases s with _ | ⟨a, _ | ⟨b, t⟩⟩
    · rfl
    · rfl
    · simp [isMarker, hc]

theorem Lexeme.read?_eq_inLine? {c : Cell} {s : List Cell} (hpercent : c.char ≠ '%')
    (hhyphen : isMarker '-' (c :: s) = false) (hdot : isMarker '.' (c :: s) = false) :
    Lexeme.read? false least c s = Lexeme.inLine? false least c s := by
  rw [Lexeme.read?, if_neg fun h => hpercent h.2, hhyphen, hdot, if_neg Bool.false_ne_true,
    if_neg Bool.false_ne_true]

/-- Few signs start something other than the content of a line. -/
theorem Lexeme.read?_of_notMem {c : Cell} (hc : c.char ∉ ['%', '-', '.']) (s : List Cell) :
    Lexeme.read? false least c s = Lexeme.inLine? false least c s := by
  simp only [List.mem_cons, List.not_mem_nil, or_false, not_or] at hc
  obtain ⟨hpercent, hhyphen, hdot⟩ := hc
  exact Lexeme.read?_eq_inLine? hpercent (isMarker_eq_false fun h => absurd h hhyphen)
    (isMarker_eq_false fun h => absurd h hdot)

theorem Lexeme.inLine?_plain {c : Cell} {s : List Cell} (hsign : c.char ∉ signs)
    (hsolid : c.isSpacing = false) (hnext : c.char ∈ ['-', '?', ':'] → endsWord s = false) :
    Lexeme.inLine? false least c s = Lexeme.plain? false least c s := by
  unfold Lexeme.inLine?
  split
  case h_13 hc => rw [Lexeme.sign?, hnext (by rw [hc]; decide), if_neg Bool.false_ne_true]
  case h_14 hc =>
      rw [Lexeme.sign?, hnext (by rw [hc]; decide), Bool.or_false, if_neg Bool.false_ne_true]
  case h_15 hc =>
      rw [Lexeme.sign?, hnext (by rw [hc]; decide), Bool.or_false, if_neg Bool.false_ne_true]
  case h_16 =>
      rw [if_neg]
      rintro (h | h)
      · simp only [Lexeme.isReserved, Bool.or_eq_true, decide_eq_true_eq] at h
        rcases h with ((h | h) | h) | h <;> exact hsign (h ▸ by decide)
      · exact Bool.false_ne_true (hsolid.symm.trans h)
  all_goals
    next hc => exact absurd (by rw [hc]; decide) hsign

/-- Behind a sign at its start, a plain scalar goes on with another character. -/
theorem IsPlain.exists_second (h : IsPlain s) (hs : s = x :: u) (hx : x ∈ leads)
    (line column offset : Nat) (r : List Char) :
    ∃ a t, place line column offset (u ++ r) = a :: t ∧ a.isSpacing = false ∧ a.char ≠ x := by
  obtain ⟨d, v, rfl, hd, hne⟩ := h.next x u hs hx
  exact ⟨_, _, place_cons (isBreak_eq_false_of_isSpacing hd) line column offset (v ++ r), hd, hne⟩

/-- Nothing but a plain scalar starts where one is written. -/
theorem IsPlain.read?_eq_plain? (h : IsPlain s) (hs : s = x :: u)
    (line column offset column' offset' : Nat) (r : List Char) :
    Lexeme.read? false least ⟨x, line, column, offset⟩ (place line column' offset' (u ++ r)) =
      Lexeme.plain? false least ⟨x, line, column, offset⟩
        (place line column' offset' (u ++ r)) := by
  have hsign : x ∉ signs := h.head x (by rw [hs]; rfl)
  have hsolid : (Cell.mk x line column offset).isSpacing = false := by
    obtain ⟨y, v, hy, hstart⟩ := h.words.exists_cons
    rw [hs] at hy
    exact (List.cons.inj hy).1 ▸ hstart.solid
  have hpercent : x ≠ '%' := by
    rintro rfl
    exact hsign (by decide)
  have hmarker : ∀ sign ∈ ['-', '.'], isMarker sign (⟨x, line, column, offset⟩ ::
      place line column' offset' (u ++ r)) = false := by
    have hmem : ∀ sign ∈ ['-', '.'], sign ∈ leads := by simp [leads]
    intro sign hmarker
    refine isMarker_eq_false ?_
    rintro rfl
    obtain ⟨a, t, ht, -, ha⟩ := h.exists_second hs (hmem x hmarker) line column' offset' r
    exact ⟨a, t, ht, ha⟩
  have hword : x ∈ ['-', '?', ':'] → endsWord (place line column' offset' (u ++ r)) = false := by
    intro hx
    have hmem : ∀ sign ∈ ['-', '?', ':'], sign ∈ leads := by simp [leads]
    obtain ⟨a, t, ht, ha, -⟩ := h.exists_second hs (hmem x hx) line column' offset' r
    rw [ht]
    exact ha
  rw [Lexeme.read?_eq_inLine? hpercent (hmarker '-' (by decide)) (hmarker '.' (by decide)),
    Lexeme.inLine?_plain hsign hsolid hword]

/-- A plain scalar is read as its words. -/
theorem IsPlain.read? (h : IsPlain s) (hs : s = x :: u) (hr : EndsAt least r)
    (line column offset : Nat) (hleast : least ≤ column + 1) :
    ∃ broken rest, Lexeme.read? false least ⟨x, line, column, offset⟩
        (place line (column + 1) (offset + x.utf8Size) (u ++ r)) =
          some (.content (.scalar .plain (String.ofList s)) broken, rest) ∧
      Layout.skip false false broken rest =
        Layout.skip false false false
          (place line (column + s.length) (offset + byteLength s) r) := by
  have huLine : OnLine u := fun c hc => h.words.onLine c (by rw [hs]; exact .tail x hc)
  have hcolumn : column + 1 + u.length = column + s.length := by
    rw [hs, List.length_cons]
    omega
  have hoffset : offset + x.utf8Size + byteLength u = offset + byteLength s := by
    rw [hs, byteLength_cons, Nat.add_assoc]
  have hends := hr line (column + s.length) (offset + byteLength s)
  have hread := h.words.read? hs hends line column offset hleast
  refine ⟨_, _, ?_, hends.stops.skip false⟩
  rw [h.read?_eq_plain? hs, Lexeme.plain?, place_append huLine, hcolumn, hoffset, hread,
    Option.map_some, Bool.false_or]

/-- A quote starts a quoted scalar. -/
theorem Lexeme.read?_quote {c : Cell} (hc : c.char = '"' ∨ c.char = '\'') (s : List Cell) :
    Lexeme.read? false least c s = Lexeme.quoted? c.char s := by
  have hinLine : c.char ∉ ['%', '-', '.'] := by
    rcases hc with hc | hc
    · rw [hc]
      decide
    · rw [hc]
      decide
  rw [Lexeme.read?_of_notMem hinLine, Lexeme.inLine?]
  rcases hc with hc | hc
  · rw [hc]
    rfl
  · rw [hc]
    rfl

/-- No other quote follows a scalar between single quotes. -/
theorem EndsAt.head?_ne_quote (h : EndsAt least r) : r.head? ≠ some '\'' := by
  cases r with
  | nil => exact nofun
  | cons c r =>
      intro hc
      obtain rfl := Option.some.inj hc
      have hword := (h 0 0 0).word
      rw [place_cons rfl, Plain.word?] at hword
      simp [Cell.isSpacing, Cell.isGap, isGap, Cell.isBreak, Yaml.isBreak, Plain.leans,
        Plain.endsBefore, Plain.isFlowSign] at hword

theorem length_between (x y : Char) (s : List Char) (n : Nat) :
    n + (x :: (s ++ [y])).length = n + 1 + s.length + 1 := by
  rw [List.length_cons, List.length_append, List.length_singleton]
  omega

theorem byteLength_between {x y : Char} (hy : y.utf8Size = 1) (s : List Char) (n : Nat) :
    n + byteLength (x :: (s ++ [y])) = n + x.utf8Size + byteLength s + 1 := by
  have hlast : byteLength [y] = 1 := hy
  rw [byteLength_cons, byteLength_append, hlast]
  omega

/-- However it is written, a scalar is read as its text. -/
theorem Written.read? (h : Written style text w) (hw : w = x :: u) (hr : EndsAt least r)
    (line column offset : Nat) (hleast : least ≤ column + 1) :
    ∃ broken rest, Lexeme.read? false least ⟨x, line, column, offset⟩
        (place line (column + 1) (offset + x.utf8Size) (u ++ r)) =
          some (.content (.scalar style text) broken, rest) ∧
      Layout.skip false false broken rest =
        Layout.skip false false false
          (place line (column + w.length) (offset + byteLength w) r) := by
  cases h with
  | plain hs => exact hs.read? hw hr line column offset hleast
  | @double s ws hs =>
      obtain ⟨rfl, rfl⟩ := List.cons.inj hw
      obtain ⟨ps, hps, hread⟩ := Quoted.double?_append hs r
      have htext : Quoted.textFrom false [] ps = s := Quoted.textFrom_pieces hps nofun
      refine ⟨false, _, ?_, rfl⟩
      rw [Lexeme.read?_quote (.inl rfl), Lexeme.quoted?, Quoted.read?, if_pos rfl,
        List.append_assoc,
        List.singleton_append, hread line (column + 1) _ (Nat.succ_ne_zero column),
        length_between, byteLength_between rfl]
      simp only [Option.map_some, htext]
  | @single s hs =>
      obtain ⟨rfl, rfl⟩ := List.cons.inj hw
      obtain ⟨ps, hps, hread⟩ := Quoted.single?_append hs hr.head?_ne_quote
      have htext : Quoted.textFrom false [] ps = s := Quoted.textFrom_pieces hps nofun
      have hquote : '\'' ≠ '"' := by decide
      refine ⟨false, _, ?_, rfl⟩
      rw [Lexeme.read?_quote (.inr rfl), Lexeme.quoted?, Quoted.read?, if_neg hquote,
        List.append_assoc, List.singleton_append,
        hread line (column + 1) _ (Nat.succ_ne_zero column), length_between, byteLength_between rfl]
      simp only [Option.map_some, htext]

end IrSurvey.Yaml
