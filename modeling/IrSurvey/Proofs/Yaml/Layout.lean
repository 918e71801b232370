import IrSurvey.Proofs.Yaml.Scalar

/-!
The steps of the layout outside of brackets: at a key that starts a line, at the colon behind it, at
a scalar and at the end of the text. What is passed over between two lexemes counts only by what it
leads to.
-/
namespace IrSurvey.Yaml.Layout
open Text

variable {l reached next : Layout} {s r : List Cell} {c : Cell} {allowed : Bool}
  {line column offset n : Nat} {ts ts' : List Token} {columns columns' : List Nat} {style : Style}
  {text : String} {e w z : List Char}

/-! ## One step -/

/-- The tokens of a text that ends here. -/
def finish? (l : Layout) : Option (List Token) :=
  (l.close fun _ => true).forget?.map fun l => l.tokens.reverse

/-- The next lexeme takes the layout one step further. -/
theorem tokens?_eq (l : Layout) (s : List Cell) :
    l.tokens? s =
      match skip l.inFlow false l.keyAllowed s with
      | (_, []) => l.finish?
      | (allowed, c :: r) =>
        (l.reach? c allowed).bind fun reached =>
          (Lexeme.read? reached.inFlow reached.least c r).bind fun p =>
            (reached.take? c p.1).bind fun next => next.tokens? p.2 := by
  rw [tokens?]
  split
  next h =>
      rw [h]
      rfl
  next h =>
      rw [h]
      split
      next h => simp only [h, Option.bind_none]
      next h =>
          split
          next h' => simp only [h, h', Option.bind_some, Option.bind_none]
          next h' =>
              split
              next h'' => simp only [h, h', h'', Option.bind_some, Option.bind_none]
              next h'' => simp only [h, h', h'', Option.bind_some]

theorem tokens?_end (h : (skip l.inFlow false l.keyAllowed s).2 = []) :
    l.tokens? s = l.finish? := by
  rw [tokens?_eq]
  split
  next => rfl
  next h' =>
      rw [h'] at h
      cases h

theorem tokens?_cons {x : Lexeme} {rest : List Cell}
    (hskip : skip l.inFlow false l.keyAllowed s = (allowed, c :: r))
    (hreach : l.reach? c allowed = some reached)
    (hread : Lexeme.read? reached.inFlow reached.least c r = some (x, rest))
    (htake : reached.take? c x = some next) : l.tokens? s = next.tokens? rest := by
  rw [tokens?_eq, hskip]
  simp only [hreach, hread, htake, Option.bind_some]

theorem finish?_congr (l : Layout) (a b : Bool) :
    { l with keyAllowed := a }.finish? = { l with keyAllowed := b }.finish? := by
  obtain ⟨tokens, count, columns, start, outer, _⟩ := l
  rcases start with _ | ⟨_, _, _, _, _ | _⟩ <;> rcases outer with _ | _ <;> rfl

/-- Only what is left behind the gaps counts, and whether a key may start there. -/
theorem tokens?_congr {a b : Bool} (h : skip l.inFlow false a s = skip l.inFlow false b r) :
    { l with keyAllowed := a }.tokens? s = { l with keyAllowed := b }.tokens? r := by
  have hskip : ∀ {a : Bool} {s : List Cell} {p : Bool × List Cell}, skip l.inFlow false a s = p →
      skip { l with keyAllowed := a }.inFlow false { l with keyAllowed := a }.keyAllowed s = p := id
  rcases hr : skip l.inFlow false b r with ⟨allowed, _ | ⟨c, u⟩⟩
  · rw [tokens?_end (by rw [hskip (h.trans hr)]), tokens?_end (by rw [hskip hr])]
    exact finish?_congr l a b
  · rw [tokens?_eq, tokens?_eq, hskip (h.trans hr), hskip hr]
    rfl

/-! ## Outside of brackets -/

/-- No key has started, and the open collections are known. -/
def standing (ts : List Token) (columns : List Nat) (keyAllowed : Bool) : Layout :=
  { tokens := ts.reverse, count := ts.length, columns, start := none, outer := [], keyAllowed }

/-- Once the collections deeper than a column are closed, these are the tokens and the open
collections. A key that may have started is on an earlier line and cannot hinder. -/
inductive Stands : Layout → Nat → Nat → List Token → List Nat → Prop
  | mk {line n : Nat} {ts : List Token} {deeper columns : List Nat} {start : Option KeyStart}
      {keyAllowed : Bool} :
      (∀ k ∈ start, k.required = false ∧ k.line < line) →
      (∀ d ∈ deeper, n < d) → (∀ d ∈ columns.head?, d ≤ n) →
      Stands
        { tokens := ts.reverse, count := ts.length, columns := deeper ++ columns, start,
          outer := [], keyAllowed }
        line n (ts ++ List.replicate deeper.length .blockEnd) columns

theorem stands_standing (hcolumns : ∀ d ∈ columns.head?, d ≤ n) (ts : List Token) (allowed : Bool)
    (line : Nat) : Stands (standing ts columns allowed) line n ts columns := by
  have h : Stands _ line n (ts ++ List.replicate [].length .blockEnd) columns :=
    @Stands.mk line n ts [] columns none allowed nofun nofun hcolumns
  rwa [List.length_nil, List.replicate_zero, List.append_nil] at h

/-- Closing takes the innermost collections that a condition names. -/
theorem close_append {named : Nat → Bool} {deeper : List Nat}
    (hdeeper : ∀ d ∈ deeper, named d = true) (hcolumns : ∀ d ∈ columns.head?, named d = false)
    (ts : List Token) (start : Option KeyStart) (allowed : Bool) :
    close named
        { tokens := ts.reverse, count := ts.length, columns := deeper ++ columns, start,
          outer := [], keyAllowed := allowed } =
      { standing (ts ++ List.replicate deeper.length .blockEnd) columns allowed with start } := by
  have htake : (deeper ++ columns).takeWhile named = deeper := by
    rw [takeWhile_append_of_head? hcolumns]
    exact List.takeWhile_eq_self_iff.2 hdeeper
  have hdrop : (deeper ++ columns).dropWhile named = columns := by
    rw [List.dropWhile_append_of_pos hdeeper, dropWhile_eq_self hcolumns]
  rw [close, if_neg (by exact Bool.false_ne_true)]
  simp only [htake, hdrop, standing, List.map_const', List.reverse_append, List.reverse_replicate,
    List.length_append, List.length_replicate, Nat.add_comm]

/-- A key that cannot hinder is forgotten. -/
theorem forget?_stale {start : Option KeyStart} (hstart : ∀ k ∈ start, k.required = false)
    (hl : l.start = start) : l.forget? = some { l with start := none } := by
  subst hl
  obtain ⟨tokens, count, columns, start, outer, allowed⟩ := l
  cases start with
  | none => rfl
  | some k =>
      have hk := hstart k rfl
      rw [forget?]
      simp only [hk, Bool.false_eq_true, if_false]

namespace Stands

theorem inFlow (h : Stands l line n ts columns) : l.inFlow = false := by
  cases h
  rfl

theorem allow (h : Stands l line n ts columns) (allowed : Bool) :
    Stands { l with keyAllowed := allowed } line n ts columns := by
  obtain ⟨hstart, hdeeper, hcolumns⟩ := h
  exact .mk hstart hdeeper hcolumns

theorem later {line' : Nat} (h : Stands l line n ts columns) (hline : line ≤ line') :
    Stands l line' n ts columns := by
  obtain ⟨hstart, hdeeper, hcolumns⟩ := h
  exact .mk (fun k hk => ⟨(hstart k hk).1, Nat.lt_of_lt_of_le (hstart k hk).2 hline⟩) hdeeper
    hcolumns

/-- Further out, one collection more will be closed. -/
theorem outward {m : Nat} (h : Stands l line m ts (m :: columns)) (hnm : n < m)
    (hcolumns : ∀ d ∈ columns.head?, d ≤ n) :
    Stands l line n (ts ++ [.blockEnd]) columns := by
  obtain @⟨_, _, ts, deeper, _, start, allowed, hstart, hdeeper, -⟩ := h
  have hdeeper' : ∀ d ∈ deeper ++ [m], n < d := by
    intro d hd
    rcases List.mem_append.1 hd with hd | hd
    · exact Nat.lt_trans hnm (hdeeper d hd)
    · exact List.mem_singleton.1 hd ▸ hnm
  have h := @Stands.mk line n ts (deeper ++ [m]) columns start allowed hstart hdeeper' hcolumns
  rwa [List.length_append, List.length_singleton, List.replicate_succ', List.append_assoc,
    List.singleton_append, ← List.append_assoc ts] at h

/-- At a character of a line that far out, the deeper collections close. -/
theorem reach? (h : Stands l c.line c.column ts columns) (allowed : Bool) :
    l.reach? c allowed = some (standing ts columns allowed) := by
  generalize hline : c.line = line at h
  generalize hcolumn : c.column = column at h
  obtain @⟨_, _, ts, deeper, _, start, _, hstart, hdeeper, hcolumns⟩ := h
  have hkeep : keep? c start = some none := by
    cases start with
    | none => rfl
    | some k =>
        obtain ⟨hrequired, hk⟩ := hstart k rfl
        have hreaches : KeyStart.reaches k c = false := by
          simp [KeyStart.reaches, hline, Nat.ne_of_lt hk]
        rw [keep?, hreaches, hrequired]
        rfl
  have hnamed : ∀ d ∈ deeper, decide (column < d) = true := fun d hd =>
    decide_eq_true (hdeeper d hd)
  have hrest : ∀ d ∈ columns.head?, decide (column < d) = false := fun d hd =>
    decide_eq_false (Nat.not_lt.2 (hcolumns d hd))
  rw [Layout.reach?, expire?]
  simp only [hkeep, hcolumn, Option.bind_some, List.mapM_nil, Option.pure_def, Option.map_some]
  rw [close_append hnamed hrest]
  rfl

theorem finish? (h : Stands l line n ts columns) :
    l.finish? = some (ts ++ columns.map fun _ => .blockEnd) := by
  obtain @⟨_, _, ts, deeper, _, start, _, hstart, -, -⟩ := h
  have hclose :=
    @close_append [] (fun _ => true) (deeper ++ columns) (fun _ _ => rfl) nofun ts start
  rw [List.append_nil] at hclose
  rw [Layout.finish?, hclose, forget?_stale (fun k hk => (hstart k hk).1) rfl, Option.map_some]
  simp only [standing, List.reverse_reverse, List.length_append, List.replicate_add,
    List.append_assoc, List.map_const']

end Stands

/-! ## Steps -/

theorem tokens?_endsLine (hl : l.inFlow = false) (he : EndsLine e) (line column offset : Nat)
    (r : List Char) :
    ∃ line', line < line' ∧ l.tokens? (place line column offset (e ++ r)) =
      { l with keyAllowed := true }.tokens? (place line' 0 0 r) := by
  obtain ⟨line', hline, hskip⟩ := skip_endsLine_append he l.keyAllowed line column offset r
  refine ⟨line', hline, tokens?_congr (l := l) ?_⟩
  rw [hl, hskip]

theorem tokens?_endsText (h : Stands l line n ts columns) (hz : EndsText z)
    (line' column offset : Nat) :
    l.tokens? (place line' column offset z) = some (ts ++ columns.map fun _ => .blockEnd) := by
  rw [tokens?_end, h.finish?]
  rw [h.inFlow]
  exact skip_endsText hz l.keyAllowed line' column offset

/-- A lexeme that starts behind spaces, once the collections deeper than its column are closed. -/
theorem tokens?_spaces {x : Char} {m j : Nat} {u : List Char} {lexeme : Lexeme} {rest : List Cell}
    (h : Stands l line m ts columns) (hm : column + j = m) (hx : Starts x)
    (hread : Lexeme.read? false (standing ts columns l.keyAllowed).least
      ⟨x, line, m, offset + byteLength (spaces j)⟩
      (place line (m + 1) (offset + byteLength (spaces j) + x.utf8Size) u) = some (lexeme, rest))
    (htake : (standing ts columns l.keyAllowed).take?
      ⟨x, line, m, offset + byteLength (spaces j)⟩ lexeme = some next) :
    l.tokens? (place line column offset (spaces j ++ x :: u)) = next.tokens? rest := by
  refine tokens?_cons ?_ (h.reach? l.keyAllowed) hread htake
  rw [h.inFlow, skip_spaces_append, hm, place_cons hx.isBreak, hx.skip]

theorem least_standing (hn : ∀ d ∈ columns.head?, d ≤ n) (ts : List Token) (allowed : Bool) :
    (standing ts columns allowed).least ≤ n + 1 := by
  rw [least, standing]
  cases columns with
  | nil => exact Nat.zero_le (n + 1)
  | cons d columns => exact Nat.succ_le_succ (hn d rfl)

theorem push_standing (ts : List Token) (columns : List Nat) (allowed : Bool) (t : Token) :
    (standing ts columns allowed).push t = standing (ts ++ [t]) columns allowed := by
  simp only [standing, push, List.reverse_append, List.reverse_singleton, List.singleton_append,
    List.length_append, List.length_singleton]

/-- A key may start with a scalar if one is allowed there. -/
def startAt (c : Cell) (position : Nat) (columns : List Nat) (allowed : Bool) : Option KeyStart :=
  if allowed then some {
    line := c.line
    column := c.column
    offset := c.offset
    position
    required := columns.head? = some c.column }
  else none

theorem take?_content (c : Cell) (ts : List Token) (columns : List Nat) (allowed broken : Bool)
    (t : Token) :
    (standing ts columns allowed).take? c (.content t broken) =
      some { standing (ts ++ [t]) columns broken with
        start := startAt c ts.length columns allowed } := by
  rw [← push_standing]
  cases allowed with
  | true => rfl
  | false => rfl

/-- A scalar is one token, and what stands behind it comes next. -/
theorem tokens?_written {m j : Nat} {u : List Char} (h : Stands l line m ts columns)
    (hm : column + j = m) (hw : Written style text w)
    (hu : EndsAt (standing ts columns true).least u)
    (hleast : (standing ts columns true).least ≤ m + 1) (offset : Nat) :
    l.tokens? (place line column offset (spaces j ++ (w ++ u))) =
      { standing (ts ++ [Token.scalar style text]) columns false with
        start := startAt ⟨w.headD ' ', line, m, offset + byteLength (spaces j)⟩ ts.length columns
          l.keyAllowed }.tokens?
        (place line (m + w.length) (offset + byteLength (spaces j) + byteLength w) u) := by
  obtain ⟨x, v, rfl, hx⟩ := hw.exists_cons
  obtain ⟨broken, rest, hread, hskip⟩ := hw.read? rfl hu line m (offset + byteLength (spaces j))
    hleast
  rw [List.cons_append, tokens?_spaces h hm hx hread (take?_content _ _ _ _ _ _)]
  exact tokens?_congr (l := { standing (ts ++ [Token.scalar style text]) columns false with
    start := startAt ⟨x, line, m, offset + byteLength (spaces j)⟩ ts.length columns l.keyAllowed })
    hskip

/-- A scalar inside of a collection, further in than its column. -/
theorem tokens?_scalar {j : Nat} {u : List Char} (hw : Written style text w)
    (hu : EndsAt (n + 1) u) (hn : n < column) (ts : List Token) (columns : List Nat)
    (allowed : Bool) (line offset : Nat) :
    ∃ l column' offset', (standing ts (n :: columns) allowed).tokens?
        (place line column offset (spaces j ++ (w ++ u))) =
          l.tokens? (place line column' offset' u) ∧
      Stands l (line + 1) n (ts ++ [.scalar style text]) (n :: columns) := by
  have hstands :
      Stands (standing ts (n :: columns) allowed) line (column + j) ts (n :: columns) := by
    refine stands_standing ?_ ts allowed line
    rintro d ⟨⟩
    omega
  refine ⟨_, _, _, tokens?_written hstands rfl hw hu (by show n + 1 ≤ _; omega) offset, ?_⟩
  -- the key that may have started is deeper than the collection
  have hstart : ∀ c : Cell, c.line = line → c.column = column + j →
      ∀ k ∈ startAt c ts.length (n :: columns) allowed, k.required = false ∧ k.line < line + 1 := by
    intro c hline hcolumn k hk
    unfold startAt at hk
    split at hk
    · cases hk
      refine ⟨decide_eq_false fun h => ?_, by show c.line < line + 1; omega⟩
      rw [List.head?_cons, hcolumn] at h
      have := Option.some.inj h
      omega
    · cases hk
  have h := @Stands.mk (line + 1) n (ts ++ [.scalar style text]) [] (n :: columns) _ false
    (hstart ⟨w.headD ' ', line, column + j, offset + byteLength (spaces j)⟩ rfl rfl) nofun
    (by rintro d ⟨⟩; exact Nat.le_refl n)
  rwa [List.length_nil, List.replicate_zero, List.append_nil] at h

/-! ## Keys -/

/-- The first key of a mapping opens it, which shows in front of the key. -/
inductive Opening (n : Nat) : List Token → List Nat → List Token → List Nat → Prop
  | first {ts : List Token} {columns : List Nat} : (∀ d ∈ columns.head?, d < n) →
      Opening n ts columns (ts ++ [.blockMapping]) (n :: columns)
  | other {ts : List Token} {columns : List Nat} : Opening n ts (n :: columns) ts (n :: columns)

theorem Opening.head? (h : Opening n ts columns ts' columns') : ∀ d ∈ columns.head?, d ≤ n := by
  cases h with
  | first hcolumns => exact fun d hd => Nat.le_of_lt (hcolumns d hd)
  | other =>
      rintro d ⟨⟩
      exact Nat.le_refl n

theorem opens_of_lt (hcolumns : ∀ d ∈ columns.head?, d < n) (ts : List Token) (allowed : Bool)
    (start : Option KeyStart) : opens { standing ts columns allowed with start } n = true := by
  cases columns with
  | nil => rfl
  | cons d columns => exact decide_eq_true (hcolumns d rfl)

theorem opens_cons (n : Nat) (columns : List Nat) (ts : List Token) (allowed : Bool)
    (start : Option KeyStart) : opens { standing ts (n :: columns) allowed with start } n = false :=
  decide_eq_false (Nat.lt_irrefl n)

/-- Where a key may start, a sign opens its mapping unless it is open already. -/
theorem sign?_standing (h : Opening n ts columns ts' columns') (hc : c.column = n) :
    (standing ts columns true).sign? c .blockMapping = some (standing ts' columns' true) := by
  have hsign : (standing ts columns true).sign? c .blockMapping =
      some ((standing ts columns true).openBlock n .blockMapping) := by
    rw [← hc]
    rfl
  rw [hsign, openBlock]
  cases h with
  | first hcolumns =>
      have hopens : (standing ts columns true).opens n = true := opens_of_lt hcolumns ts true none
      rw [hopens, if_pos rfl, push_standing]
      rfl
  | @other columns =>
      have hopens : (standing ts (n :: columns) true).opens n = false :=
        opens_cons n columns ts true none
      rw [hopens, if_neg Bool.false_ne_true]

/-- A colon that the start of a key reaches finds it there. -/
theorem reach?_of_reaches {k : KeyStart} (hk : KeyStart.reaches k c = true)
    (hcolumns : ∀ d ∈ columns.head?, d ≤ c.column) (ts : List Token) (allowed : Bool) :
    { standing ts columns false with start := some k }.reach? c allowed =
      some { standing ts columns allowed with start := some k } := by
  have hrest : ∀ d ∈ columns.head?, decide (c.column < d) = false := fun d hd =>
    decide_eq_false (Nat.not_lt.2 (hcolumns d hd))
  have hclose := @close_append columns (c.column < ·) [] nofun hrest ts (some k) allowed
  rw [List.nil_append, List.length_nil, List.replicate_zero, List.append_nil] at hclose
  have hkeep : keep? c (some k) = some (some k) := by
    rw [keep?, if_pos hk]
  rw [reach?, expire?]
  simp only [standing, hkeep, Option.bind_some, List.mapM_nil, Option.pure_def, Option.map_some]
  exact congrArg some hclose

theorem insert_standing (ts us : List Token) (t : Token) (columns : List Nat) (allowed : Bool)
    (start : Option KeyStart) :
    { standing (ts ++ [t]) columns allowed with start }.insert ts.length us =
      { standing (ts ++ us ++ [t]) columns allowed with start } := by
  simp [insert, standing, Nat.add_assoc, Nat.add_comm us.length]

/-- A colon makes a key of the scalar before it. -/
theorem take?_value {k : KeyStart} (ho : Opening n ts columns ts' columns') (hk : k.column = n)
    (hposition : k.position = ts.length) (c : Cell) (t : Token) :
    { standing (ts ++ [t]) columns false with start := some k }.take? c .value =
      some (standing (ts' ++ [.key, t, .value]) columns' false) := by
  obtain ⟨line, column, offset, position, required⟩ := k
  subst hk hposition
  rw [take?, value?]
  cases ho with
  | first hcolumns =>
      simp only [opens_of_lt hcolumns, if_true, insert_standing]
      simp [standing, push]
  | @other columns =>
      simp only [opens_cons column columns, Bool.false_eq_true, if_false, insert_standing]
      simp [standing, push]

/-- The signs of a key and of a value stand alone. -/
theorem read?_sign {x : Char} {lexeme : Lexeme} (hx : (x = '?' ∧ lexeme = .key) ∨
    (x = ':' ∧ lexeme = .value)) (hs : endsWord s = true) (least line column offset : Nat) :
    Lexeme.read? false least ⟨x, line, column, offset⟩ s = some (lexeme, s) := by
  have hinLine : x ∉ ['%', '-', '.'] := by
    rcases hx with ⟨rfl, -⟩ | ⟨rfl, -⟩ <;> decide
  rw [Lexeme.read?_of_notMem hinLine, Lexeme.inLine?]
  rcases hx with ⟨rfl, rfl⟩ | ⟨rfl, rfl⟩
  · show Lexeme.sign? (false || endsWord s) .key false least _ s = _
    rw [hs]
    rfl
  · show Lexeme.sign? (false || endsWord s) .value false least _ s = _
    rw [hs]
    rfl

/-- A key at the column of its mapping, and the colon behind it. -/
theorem tokens?_key {j : Nat} {u : List Char} (h : Stands l line n ts columns)
    (hallowed : l.keyAllowed = true) (ho : Opening n ts columns ts' columns')
    (hw : Written style text w) (hbytes : byteLength (w ++ spaces j) ≤ 1024)
    (hu : ∀ c ∈ u.head?, isSpacing c = true) :
    ∃ column offset, n < column ∧
      l.tokens? (place line 0 0 (spaces n ++ (w ++ (spaces j ++ ':' :: u)))) =
        (standing (ts' ++ [.key, .scalar style text, .value]) columns' false).tokens?
          (place line column offset u) := by
  have hleast : (standing ts columns true).least ≤ n + 1 := least_standing ho.head? ts true
  have hwritten := tokens?_written (l := l) (w := w) h (Nat.zero_add n) hw (endsAt_colon j hu)
    hleast 0
  generalize hoffset : 0 + byteLength (spaces n) = offset at hwritten
  generalize hcolumn' : n + w.length + j = column'
  generalize hoffset' : offset + byteLength w + byteLength (spaces j) = offset'
  refine ⟨column' + 1, offset' + 1, by omega, hwritten.trans ?_⟩
  have hreaches : KeyStart.reaches ⟨line, n, offset, ts.length, columns.head? = some n⟩
      ⟨':', line, column', offset'⟩ = true := by
    rw [byteLength_append] at hbytes
    simp only [KeyStart.reaches, decide_true, Bool.true_and, decide_eq_true_eq]
    omega
  have hcolumns : ∀ d ∈ columns.head?, d ≤ column' := fun d hd =>
    Nat.le_trans (ho.head? d hd) (by omega)
  have hstart : startAt ⟨w.headD ' ', line, n, offset⟩ ts.length columns l.keyAllowed =
      some ⟨line, n, offset, ts.length, columns.head? = some n⟩ := by
    rw [hallowed]
    rfl
  rw [hstart]
  refine tokens?_cons ?_ (reach?_of_reaches hreaches hcolumns _ false)
    (read?_sign (.inr ⟨rfl, rfl⟩) (endsWord_place hu line (column' + 1) (offset' + 1)) _ _ _ _)
    (take?_value ho rfl rfl _ _)
  show skip false false false _ = _
  have hcolon : Starts ':' := by constructor <;> decide
  rw [skip_spaces_append, hcolumn', hoffset', place_cons rfl, hcolon.skip]
  rfl

theorem Opening.exists_cons (h : Opening n ts columns ts' columns') :
    ∃ outer, columns' = n :: outer := by
  cases h with
  | first => exact ⟨_, rfl⟩
  | other => exact ⟨_, rfl⟩

theorem take?_key (ho : Opening n ts columns ts' columns') (hc : c.column = n) :
    (standing ts columns true).take? c .key = some (standing (ts' ++ [.key]) columns' true) := by
  rw [take?, sign?_standing ho hc, ← push_standing]
  rfl

/-- The colon below the sign of a key. -/
theorem take?_value_below (hc : c.column = n) (ts : List Token) (columns : List Nat) :
    (standing ts (n :: columns) true).take? c .value =
      some (standing (ts ++ [.value]) (n :: columns) true) := by
  have hvalue : (standing ts (n :: columns) true).take? c .value =
      ((standing ts (n :: columns) true).sign? c .blockMapping).map fun l =>
        { l.push .value with keyAllowed := !l.inFlow } := rfl
  rw [hvalue, sign?_standing .other hc, ← push_standing]
  rfl

/-- A sign at the column of its mapping, where a key may start. -/
theorem tokens?_sign {x : Char} {lexeme : Lexeme} {u : List Char} (h : Stands l line n ts columns)
    (hallowed : l.keyAllowed = true)
    (hx : (x = '?' ∧ lexeme = .key) ∨ (x = ':' ∧ lexeme = .value))
    (hu : ∀ c ∈ u.head?, isSpacing c = true)
    (htake : ∀ c : Cell, c.column = n → (standing ts columns true).take? c lexeme = some next) :
    ∃ offset, l.tokens? (place line 0 0 (spaces n ++ x :: u)) =
      next.tokens? (place line (n + 1) offset u) := by
  have hstarts : Starts x := by
    rcases hx with ⟨rfl, -⟩ | ⟨rfl, -⟩ <;> constructor <;> decide
  refine ⟨_, tokens?_spaces h (Nat.zero_add n) hstarts
    (read?_sign hx (endsWord_place hu line (n + 1) _) _ _ _ _) ?_⟩
  rw [hallowed]
  exact htake _ rfl

/-- A key behind its sign, and the colon below the sign. -/
theorem tokens?_explicitKey {i : Nat} {u : List Char} (h : Stands l line n ts columns)
    (hallowed : l.keyAllowed = true) (ho : Opening n ts columns ts' columns')
    (hw : Written style text w) (he : EndsLine e) (hu : ∀ c ∈ u.head?, isSpacing c = true) :
    ∃ line' column offset, n < column ∧
      l.tokens? (place line 0 0
          (spaces n ++ '?' :: (spaces (i + 1) ++ (w ++ (e ++ (spaces n ++ ':' :: u)))))) =
        (standing (ts' ++ [.key, .scalar style text, .value]) columns' true).tokens?
          (place line' column offset u) := by
  obtain ⟨outer, rfl⟩ := ho.exists_cons
  have hspace : ∀ c ∈ (spaces (i + 1) ++ (w ++ (e ++ (spaces n ++ ':' :: u)))).head?,
      isSpacing c = true := by
    rintro c ⟨⟩
    rfl
  obtain ⟨offset, hsign⟩ := tokens?_sign h hallowed (.inl ⟨rfl, rfl⟩) hspace fun c => take?_key ho
  -- the scalar behind the sign, with the collection already open
  obtain ⟨l', column', offset', hscalar, hl'⟩ := tokens?_scalar (j := i + 1) hw
    (endsAt_endsLine he (Nat.lt_succ_self n) (by decide : isSpacing ':' = false) u)
    (Nat.lt_succ_self n) (ts' ++ [.key]) outer true line offset
  obtain ⟨line', hline, hnext⟩ := tokens?_endsLine hl'.inFlow he line column' offset'
    (spaces n ++ ':' :: u)
  obtain ⟨offset', hcolon⟩ := tokens?_sign ((hl'.later hline).allow true) rfl (.inr ⟨rfl, rfl⟩) hu
    fun c hc => take?_value_below hc _ outer
  refine ⟨line', n + 1, offset', Nat.lt_succ_self n, ?_⟩
  rw [hsign, hscalar, hnext, hcolon]
  simp only [List.append_assoc, List.cons_append, List.nil_append]

end IrSurvey.Yaml.Layout
