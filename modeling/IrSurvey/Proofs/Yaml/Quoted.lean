import Mathlib.Data.List.Forall2
import IrSurvey.Proofs.Text.Digit
import IrSurvey.Proofs.Yaml.Plain

/-!
Quoted scalars on one line. Between double quotes a character is written as itself or as an escape,
between single quotes only the quote itself is written in another way.
-/
namespace IrSurvey.Yaml.Quoted
open Text

variable {s r w : List Char} {x b : Char} {line column offset : Nat} {ps : List Piece}

/-- The piece that a character is read as. A break is never read as spacing here. -/
inductive PieceOf (x : Char) : Piece → Prop
  | char : PieceOf x (.char x)
  | spacing : isBreak x = false → PieceOf x (.spacing x)

theorem pieceOf_plainPiece {c : Cell} (hc : isBreak c.char = false) :
    PieceOf c.char (plainPiece c) := by
  unfold plainPiece
  split
  · exact .spacing hc
  · exact .char

/-- Without breaks, the pieces stand for their characters. -/
theorem textFrom_pieces (h : List.Forall₂ PieceOf s ps) {run : List Char} (hrun : OnLine run) :
    textFrom false run ps = run.reverse ++ s := by
  have hjoint : ∀ {run : List Char}, OnLine run → runText false run = run.reverse := by
    intro run hrun
    exact joint_eq_self fun c hc => hrun c (List.mem_reverse.1 hc)
  induction h generalizing run with
  | nil => rw [textFrom, hjoint hrun, List.append_nil]
  | @cons x p s ps hp _ ih =>
      cases hp with
      | char =>
          have hnil : OnLine [] := nofun
          rw [textFrom, hjoint hrun, ih hnil, List.reverse_nil, List.nil_append]
      | spacing hx =>
          have hrun' : OnLine (x :: run) := List.forall_mem_cons.2 ⟨hx, hrun⟩
          rw [textFrom, ih hrun', List.reverse_cons, List.append_assoc, List.singleton_append]

/-- No document starts or ends inside of a line. -/
theorem atMarker_cons {c : Cell} (hc : c.column ≠ 0) (s : List Cell) :
    atMarker (c :: s) = false := by
  rcases s with _ | ⟨a, _ | ⟨b, s⟩⟩
  · rfl
  · rfl
  · simp [atMarker, isMarker, hc]

/-! ## Between quotes -/

/-- The reader of the characters between quotes, up to their end. -/
abbrev PieceReader := List Cell → Option (List Piece × List Cell)

/-- Inside of a line, characters are read as a piece for a character. -/
def Reads (read : PieceReader) (x : Char) (w : List Char) : Prop :=
  ∃ p, PieceOf x p ∧ ∀ line column offset r, column ≠ 0 → r ≠ [] →
    read (place line column offset (w ++ r)) =
      (read (place line (column + w.length) (offset + byteLength w) r)).map
        fun (ps, r) => (p :: ps, r)

/-- A text whose characters are read one after the other, up to its quote. -/
theorem reads_flatten {read : PieceReader} {q : Char} {ws : List (List Char)}
    (h : List.Forall₂ (Reads read) s ws)
    (hq : ∀ line column offset, column ≠ 0 →
      read (place line column offset (q :: r)) =
        some ([], place line (column + 1) (offset + 1) r)) :
    ∃ ps, List.Forall₂ PieceOf s ps ∧ ∀ line column offset, column ≠ 0 →
      read (place line column offset (ws.flatten ++ q :: r)) =
        some (ps, place line (column + ws.flatten.length + 1) (offset + byteLength ws.flatten + 1)
          r) := by
  induction h with
  | nil => exact ⟨[], .nil, hq⟩
  | @cons x w s ws hx _ ih =>
      obtain ⟨p, hp, hfirst⟩ := hx
      obtain ⟨ps, hps, hrest⟩ := ih
      refine ⟨p :: ps, .cons hp hps, fun line column offset hcolumn => ?_⟩
      have hne : ws.flatten ++ q :: r ≠ [] :=
        List.append_ne_nil_of_right_ne_nil _ (List.cons_ne_nil q r)
      have hcolumn' :
          column + w.length + ws.flatten.length = column + (w ++ ws.flatten).length := by
        rw [List.length_append, Nat.add_assoc]
      rw [List.flatten_cons, List.append_assoc, hfirst line column offset _ hcolumn hne,
        hrest line (column + w.length) (offset + byteLength w) (by omega), Option.map_some,
        byteLength_append, hcolumn', Nat.add_assoc offset]

/-! ## Double quotes -/

/-- The escapes of one letter. -/
def letters : List (Char × Char) :=
  [('0', '\x00'), ('a', '\x07'), ('b', '\x08'), ('t', '\t'), ('\t', '\t'), ('n', '\n'),
    ('v', '\x0b'), ('f', '\x0c'), ('r', '\r'), ('e', '\x1b'), (' ', ' '), ('"', '"'), ('/', '/'),
    ('\\', '\\'), ('N', '\u0085'), ('_', '\u00a0'), ('L', '\u2028'), ('P', '\u2029')]

/-- How a character may be written between double quotes. -/
inductive Spells (x : Char) : List Char → Prop
  | itself : isBreak x = false → x ≠ '"' → x ≠ '\\' → Spells x [x]
  | letter {e : Char} : (e, x) ∈ letters → Spells x ['\\', e]
  | number {e : Char} {ds : List HexDigit} : digitCount? e = some ds.length →
      hexNumber ds = x.toNat → Spells x ('\\' :: e :: ds.map HexDigit.spell)

theorem onLine_spell (ds : List HexDigit) : OnLine (ds.map HexDigit.spell) := by
  have hspell : ∀ d : HexDigit, isBreak d.spell = false := by
    rintro ⟨value, capital⟩
    revert value capital
    decide
  intro c hc
  obtain ⟨d, -, rfl⟩ := List.mem_map.1 hc
  exact hspell d

theorem isBreak_of_digitCount? {e : Char} {n : Nat} (h : digitCount? e = some n) :
    isBreak e = false := by
  unfold digitCount? at h
  split at h
  · rfl
  · rfl
  · rfl
  · cases h

theorem Spells.onLine (h : Spells x w) : OnLine w := by
  cases h with
  | itself hx => exact List.forall_mem_singleton.2 hx
  | letter he =>
      have htable : ∀ p ∈ letters, isBreak p.1 = false := by decide
      exact List.forall_mem_cons.2 ⟨rfl, List.forall_mem_singleton.2 (htable _ he)⟩
  | number he =>
      exact List.forall_mem_cons.2 ⟨rfl, List.forall_mem_cons.2
        ⟨isBreak_of_digitCount? he, onLine_spell _⟩⟩

theorem double?_backslash {c : Cell} {s r : List Cell} {p : Piece} (hc : c.char = '\\')
    (hcolumn : c.column ≠ 0) (h : escapedPiece? s = some (p, r)) :
    double? (c :: s) = (double? r).map fun (ps, r) => (p :: ps, r) := by
  rw [double?, atMarker_cons hcolumn, if_neg Bool.false_ne_true, if_neg (by rw [hc]; decide),
    if_pos hc]
  split
  next p' r' h' =>
      rw [h] at h'
      cases h'
      rfl
  next h' =>
      rw [h] at h'
      cases h'

theorem escapedPiece?_letter {e : Char} (he : (e, x) ∈ letters) (line column offset : Nat)
    (s : List Cell) : escapedPiece? (⟨e, line, column, offset⟩ :: s) = some (.char x, s) := by
  have htable : ∀ p ∈ letters,
      isBreak p.1 = false ∧ digitCount? p.1 = none ∧ escape? p.1 = some p.2 := by decide
  obtain ⟨hbreak, hcount, hescape⟩ := htable _ he
  have hbreak' : (Cell.mk e line column offset).isBreak = false := hbreak
  rw [escapedPiece?, hbreak', if_neg Bool.false_ne_true]
  simp only [hcount, hescape, Option.map_some]

theorem charOf?_toNat (x : Char) : charOf? x.toNat = some x := by
  have hvalid : x.toNat.isValidChar := x.valid
  rw [charOf?, if_pos hvalid, Char.ofNat_toNat]

theorem escapedPiece?_number {e : Char} {ds : List HexDigit} (he : digitCount? e = some ds.length)
    (hnumber : hexNumber ds = x.toNat) (line column offset : Nat) (r : List Char) :
    escapedPiece? (place line column offset (e :: (ds.map HexDigit.spell ++ r))) =
      some (.char x, place line (column + 1 + ds.length)
        (offset + e.utf8Size + byteLength (ds.map HexDigit.spell)) r) := by
  have hbreak := isBreak_of_digitCount? he
  have hbreak' : (Cell.mk e line column offset).isBreak = false := hbreak
  generalize hdigits :
    place line (column + 1) (offset + e.utf8Size) (ds.map HexDigit.spell) = digits
  have hchars : digits.map Cell.char = ds.map HexDigit.spell := by
    rw [← hdigits, map_char_place]
  have hlength : digits.length = ds.length := by
    rw [← List.length_map, hchars, List.length_map]
  rw [place_cons hbreak, place_append (onLine_spell ds), hdigits, List.length_map, escapedPiece?,
    hbreak', if_neg Bool.false_ne_true]
  simp only [he]
  rw [List.take_left' hlength, List.drop_left' hlength, hlength, if_neg (Nat.lt_irrefl _), hchars,
    numberOf?_spell, hnumber, Option.bind_some, charOf?_toNat, Option.map_some]

/-- However it is written, a character is read as a piece of its own. -/
theorem Spells.reads (h : Spells x w) : Reads Quoted.double? x w := by
  cases h with
  | itself hx hquote hbackslash =>
      have hpiece : PieceOf x (plainPiece ⟨x, 0, 0, 0⟩) := pieceOf_plainPiece (c := ⟨x, 0, 0, 0⟩) hx
      refine ⟨_, hpiece, fun line column offset r hcolumn _ => ?_⟩
      rw [List.singleton_append, place_cons hx, Quoted.double?, atMarker_cons hcolumn,
        if_neg Bool.false_ne_true, if_neg hquote, if_neg hbackslash]
      rfl
  | @letter e he =>
      refine ⟨.char x, .char, fun line column offset r hcolumn _ => ?_⟩
      have hbreak : isBreak e = false := (Spells.letter he).onLine e (by simp)
      have hpiece := escapedPiece?_letter he line (column + 1) (offset + Char.utf8Size '\\')
        (place line (column + 1 + 1) (offset + Char.utf8Size '\\' + e.utf8Size) r)
      rw [List.cons_append, List.singleton_append, place_cons rfl, place_cons hbreak,
        double?_backslash rfl hcolumn hpiece, Nat.add_assoc offset]
      rfl
  | @number e ds he hnumber =>
      refine ⟨.char x, .char, fun line column offset r hcolumn _ => ?_⟩
      have hpiece := escapedPiece?_number he hnumber line (column + 1)
        (offset + Char.utf8Size '\\') r
      have hcolumn' : column + 1 + 1 + ds.length =
          column + ('\\' :: e :: ds.map HexDigit.spell).length := by
        rw [List.length_cons, List.length_cons, List.length_map]
        omega
      have hoffset : offset + Char.utf8Size '\\' + e.utf8Size +
          byteLength (ds.map HexDigit.spell) =
            offset + byteLength ('\\' :: e :: ds.map HexDigit.spell) := by
        rw [byteLength_cons, byteLength_cons, Nat.add_assoc, Nat.add_assoc]
      rw [List.cons_append, List.cons_append, place_cons rfl, double?_backslash rfl hcolumn hpiece,
        hcolumn', hoffset]

/-- A text between double quotes. -/
theorem double?_append {ws : List (List Char)} (h : List.Forall₂ Spells s ws) (r : List Char) :
    ∃ ps, List.Forall₂ PieceOf s ps ∧ ∀ line column offset, column ≠ 0 →
      double? (place line column offset (ws.flatten ++ '"' :: r)) =
        some (ps, place line (column + ws.flatten.length + 1) (offset + byteLength ws.flatten + 1)
          r) := by
  refine reads_flatten (h.imp fun x w hx => hx.reads) fun line column offset hcolumn => ?_
  rw [place_cons rfl, double?, atMarker_cons hcolumn, if_neg Bool.false_ne_true, if_pos rfl]
  rfl

/-! ## Single quotes -/

/-- The quote is written twice. -/
def doubled (c : Char) : List Char :=
  if c = '\'' then ['\'', '\''] else [c]

theorem single?_quote {c : Cell} (hc : c.char = '\'') (hcolumn : c.column ≠ 0)
    (hr : r.head? ≠ some '\'') :
    single? (c :: place line column offset r) = some ([], place line column offset r) := by
  cases r with
  | nil =>
      rw [place, single?, if_pos hc]
  | cons d r =>
      have hd : d ≠ '\'' := fun h => hr (congrArg some h)
      rw [place, single?, atMarker_cons hcolumn, if_neg Bool.false_ne_true, if_neg fun h => hd h.2,
        if_pos hc]

theorem single?_twice {c d : Cell} (hc : c.char = '\'') (hd : d.char = '\'')
    (hcolumn : c.column ≠ 0) (s : List Cell) :
    single? (c :: d :: s) = (single? s).map fun (ps, r) => (.char '\'' :: ps, r) := by
  rw [single?, atMarker_cons hcolumn, if_neg Bool.false_ne_true, if_pos ⟨hc, hd⟩]

theorem single?_other {c : Cell} (hc : c.char ≠ '\'') (hcolumn : c.column ≠ 0) {s : List Cell}
    (hs : s ≠ []) :
    single? (c :: s) = (single? s).map fun (ps, r) => (plainPiece c :: ps, r) := by
  obtain ⟨d, s, rfl⟩ := List.exists_cons_of_ne_nil hs
  rw [single?, atMarker_cons hcolumn, if_neg Bool.false_ne_true, if_neg fun h => hc h.1, if_neg hc]

theorem reads_doubled (hx : isBreak x = false) : Reads single? x (doubled x) := by
  by_cases hquote : x = '\''
  · subst hquote
    refine ⟨.char '\'', .char, fun line column offset r hcolumn _ => ?_⟩
    exact single?_twice rfl rfl hcolumn _
  · have hpiece : PieceOf x (plainPiece ⟨x, 0, 0, 0⟩) := pieceOf_plainPiece (c := ⟨x, 0, 0, 0⟩) hx
    refine ⟨_, hpiece, fun line column offset r hcolumn hr => ?_⟩
    have hdoubled : doubled x = [x] := if_neg hquote
    have hne : place line (column + 1) (offset + x.utf8Size) r ≠ [] := by
      intro h
      have hchars := map_char_place line (column + 1) (offset + x.utf8Size) r
      rw [h] at hchars
      exact hr hchars.symm
    rw [hdoubled, List.singleton_append, place_cons hx, single?_other hquote hcolumn hne]
    rfl

/-- A text between single quotes, if no other one follows. -/
theorem single?_append (hs : OnLine s) (hr : r.head? ≠ some '\'') :
    ∃ ps, List.Forall₂ PieceOf s ps ∧ ∀ line column offset, column ≠ 0 →
      single? (place line column offset (s.flatMap doubled ++ '\'' :: r)) =
        some (ps, place line (column + (s.flatMap doubled).length + 1)
          (offset + byteLength (s.flatMap doubled) + 1) r) := by
  have hreads : List.Forall₂ (Reads single?) s (s.map doubled) :=
    List.forall₂_map_right_iff.2 (List.forall₂_same.2 fun x hx => reads_doubled (hs x hx))
  refine reads_flatten hreads fun line column offset hcolumn => ?_
  rw [place_cons rfl, single?_quote rfl hcolumn hr]
  rfl

end IrSurvey.Yaml.Quoted
