import IrSurvey.Proofs.Yaml.Document
import IrSurvey.Proofs.Yaml.Layout

/-!
Block mappings as they are written: keys that stand at one column, each with a scalar on its line or
with a mapping on deeper lines below it. Comments and empty lines may stand between the lines, and a
key may have a sign in front. Every such text is read as the mapping it writes.
-/
namespace IrSurvey.Yaml
open Layout Document

variable {n m : Nat} {style : Style} {text : String} {value : Node} {k s t u v e : List Char}
  {members members' : List (Node × Node)}

/-- A key with its colon. In front of its colon on the same line a key has room for 1024 bytes. -/
inductive KeyText (n : Nat) (style : Style) (text : String) : List Char → Prop
  | bare {w : List Char} {j : Nat} : Written style text w → byteLength (w ++ spaces j) ≤ 1024 →
      KeyText n style text (w ++ (spaces j ++ [':']))
  | signed {w e : List Char} {j : Nat} : Written style text w → EndsLine e →
      KeyText n style text ('?' :: (spaces (j + 1) ++ (w ++ (e ++ (spaces n ++ [':'])))))

/-- A value on the line of its colon. It may be left out. -/
inductive ValueText : Node → List Char → Prop
  | scalar {style : Style} {text : String} {w : List Char} {j : Nat} : Written style text w →
      ValueText (.scalar none none style text) (spaces (j + 1) ++ w)
  | omitted : ValueText .empty []

/-- The lines of a block mapping whose keys stand at a column. -/
inductive IsBlock : Nat → List (Node × Node) → List Char → Prop
  | scalar {n : Nat} {style : Style} {text : String} {value : Node} {k v : List Char} :
      KeyText n style text k → ValueText value v →
      IsBlock n [(keyNode style text, value)] (spaces n ++ (k ++ v))
  | mapping {n m : Nat} {style : Style} {text : String} {members : List (Node × Node)}
      {k e s : List Char} :
      KeyText n style text k → EndsLine e → n < m → IsBlock m members s →
      IsBlock n [(keyNode style text, .mapping none members)] (spaces n ++ (k ++ (e ++ s)))
  | append {n : Nat} {members members' : List (Node × Node)} {s e t : List Char} :
      IsBlock n members s → EndsLine e → IsBlock n members' t →
      IsBlock n (members ++ members') (s ++ (e ++ t))

/-! ## One line -/

theorem KeyText.front (h : KeyText n style text k) :
    ∃ x v, k = x :: v ∧ isSpacing x = false := by
  cases h with
  | bare hw =>
      obtain ⟨x, v, rfl, hx⟩ := hw.exists_cons
      exact ⟨x, _, rfl, hx.solid⟩
  | signed => exact ⟨_, _, rfl, rfl⟩

theorem IsBlock.front (h : IsBlock n members s) :
    ∃ x v, s = spaces n ++ x :: v ∧ isSpacing x = false := by
  induction h with
  | scalar hk =>
      obtain ⟨x, v, rfl, hx⟩ := hk.front
      exact ⟨x, _, rfl, hx⟩
  | mapping hk =>
      obtain ⟨x, v, rfl, hx⟩ := hk.front
      exact ⟨x, _, rfl, hx⟩
  | append _ _ _ ih =>
      obtain ⟨x, v, rfl, hx⟩ := ih
      exact ⟨x, _, by rw [List.append_assoc, List.cons_append], hx⟩

/-- Behind a key and its colon the mapping is open, and the tokens of the key are there. -/
theorem KeyText.tokens? (hk : KeyText n style text k) {l : Layout} {line : Nat}
    {ts ts' : List Token} {columns columns' : List Nat} (hl : Stands l line n ts columns) (hallowed : l.keyAllowed = true)
    (ho : Opening n ts columns ts' columns') (hu : ∀ c ∈ u.head?, isSpacing c = true) :
    ∃ allowed line' column offset, n < column ∧
      l.tokens? (place line 0 0 (spaces n ++ (k ++ u))) =
        (standing (ts' ++ keyTokens style text) columns' allowed).tokens?
          (place line' column offset u) := by
  cases hk with
  | @bare w j hw hbytes =>
      obtain ⟨column, offset, hcolumn, hread⟩ := tokens?_key hl hallowed ho hw hbytes hu
      refine ⟨false, line, column, offset, hcolumn, ?_⟩
      rw [List.append_assoc, List.append_assoc, List.singleton_append]
      exact hread
  | @signed w e j hw he =>
      obtain ⟨line', column, offset, hcolumn, hread⟩ :=
        tokens?_explicitKey (i := j) hl hallowed ho hw he hu
      refine ⟨true, line', column, offset, hcolumn, ?_⟩
      simp only [List.cons_append, List.append_assoc, List.nil_append]
      exact hread

/-- What ends a member: no other value stands on its line, and what comes next is further out. -/
structure EndsMemberAt (n : Nat) (u : List Char) : Prop where
  head? : ∀ c ∈ u.head?, isSpacing c = true
  ends : EndsAt (n + 1) u

theorem EndsMemberAt.mono (h : EndsMemberAt n u) (hnm : n ≤ m) : EndsMemberAt m u where
  head? := h.head?
  ends := h.ends.mono (Nat.succ_le_succ hnm)

theorem IsBlock.endsMemberAt (h : IsBlock n members t) (he : EndsLine e) (u : List Char) :
    EndsMemberAt n (e ++ (t ++ u)) where
  head? := he.head? _
  ends := by
    obtain ⟨x, v, rfl, hx⟩ := h.front
    rw [List.append_assoc, List.cons_append]
    exact endsAt_endsLine he (Nat.lt_succ_self n) hx (v ++ u)

theorem endsMemberAt_endsText (hz : EndsText u) (n : Nat) : EndsMemberAt n u where
  head? := by
    cases hz with
    | remark hf => exact hf.head?
    | lines he => exact he.head? _
  ends := endsAt_endsText hz

/-! ## All lines -/

/-- From these lines the layout makes these tokens, and opens the mapping first if it is not open
yet. -/
def Adds (n : Nat) (s : List Char) (us : List Token) : Prop :=
  ∀ ⦃l line ts columns ts' columns'⦄, Stands l line n ts columns → l.keyAllowed = true →
    Opening n ts columns ts' columns' → ∀ u, EndsMemberAt n u → ∃ l' line' column offset,
      l.tokens? (place line 0 0 (s ++ u)) = l'.tokens? (place line' column offset u) ∧
      Stands l' (line' + 1) n (ts' ++ us) columns'

theorem adds_scalar {style' : Style} {text' : String} {w : List Char} {j : Nat}
    (hk : KeyText n style text k) (hw : Written style' text' w) :
    Adds n (spaces n ++ (k ++ (spaces (j + 1) ++ w)))
      (keyTokens style text ++ [.scalar style' text']) := by
  intro l line ts columns ts' columns' hl hallowed ho u hu
  obtain ⟨outer, rfl⟩ := ho.exists_cons
  have hspace : ∀ c ∈ (spaces (j + 1) ++ (w ++ u)).head?, isSpacing c = true := by
    rintro c ⟨⟩
    rfl
  obtain ⟨allowed, line', column, offset, hcolumn, hkey⟩ := hk.tokens? hl hallowed ho hspace
  obtain ⟨l', column', offset', hscalar, hl'⟩ := tokens?_scalar (j := j + 1) hw hu.ends hcolumn
    (ts' ++ keyTokens style text) outer allowed line' offset
  refine ⟨l', line', column', offset', ?_, ?_⟩
  · rw [List.append_assoc, List.append_assoc, List.append_assoc, hkey, hscalar]
  · rwa [List.append_assoc] at hl'

theorem adds_omitted (hk : KeyText n style text k) :
    Adds n (spaces n ++ k) (keyTokens style text) := by
  intro l line ts columns ts' columns' hl hallowed ho u hu
  obtain ⟨outer, rfl⟩ := ho.exists_cons
  obtain ⟨allowed, line', column, offset, -, hkey⟩ := hk.tokens? hl hallowed ho hu.head?
  refine ⟨_, line', column, offset, ?_, stands_standing ?_ _ allowed _⟩
  · rw [List.append_assoc, hkey]
  · rintro d ⟨⟩
    exact Nat.le_refl n

/-- A mapping below its key closes again behind its lines. -/
theorem Adds.mapping {us : List Token} (hs : Adds m s us) (hk : KeyText n style text k)
    (he : EndsLine e) (hnm : n < m) :
    Adds n (spaces n ++ (k ++ (e ++ s)))
      (keyTokens style text ++ (.blockMapping :: (us ++ [.blockEnd]))) := by
  intro l line ts columns ts' columns' hl hallowed ho u hu
  obtain ⟨outer, rfl⟩ := ho.exists_cons
  obtain ⟨allowed, line', column, offset, -, hkey⟩ := hk.tokens? hl hallowed ho (he.head? (s ++ u))
  generalize hts : ts' ++ keyTokens style text = before at hkey
  obtain ⟨line'', -, hline⟩ := tokens?_endsLine (l := standing before (n :: outer) allowed) rfl he
    line' column offset (s ++ u)
  have hhead : ∀ d ∈ (n :: outer).head?, d < m := by
    rintro d ⟨⟩
    exact hnm
  have hstands : Stands (standing before (n :: outer) true) line'' m before (n :: outer) :=
    stands_standing (fun d hd => Nat.le_of_lt (hhead d hd)) before true line''
  obtain ⟨l', last, column', offset', hread, hl'⟩ :=
    hs hstands rfl (.first hhead) u (hu.mono (Nat.le_of_lt hnm))
  refine ⟨l', last, column', offset', ?_, ?_⟩
  · rw [List.append_assoc, List.append_assoc, List.append_assoc, hkey, hline]
    exact hread
  · have hclosed := hl'.outward hnm (by rintro d ⟨⟩; exact Nat.le_refl n)
    rw [← hts] at hclosed
    simpa only [List.append_assoc, List.cons_append, List.nil_append] using hclosed

theorem Adds.append {us us' : List Token} (hs : Adds n s us) (he : EndsLine e)
    (ht : IsBlock n members t) (ht' : Adds n t us') : Adds n (s ++ (e ++ t)) (us ++ us') := by
  intro l line ts columns ts' columns' hl hallowed ho u hu
  obtain ⟨outer, rfl⟩ := ho.exists_cons
  obtain ⟨l', line', column, offset, hfirst, hl'⟩ :=
    hs hl hallowed ho (e ++ (t ++ u)) (ht.endsMemberAt he u)
  obtain ⟨line'', hline, hnext⟩ := tokens?_endsLine hl'.inFlow he line' column offset (t ++ u)
  obtain ⟨l'', last, column', offset', hsecond, hl''⟩ :=
    ht' ((hl'.later hline).allow true) rfl .other u hu
  refine ⟨l'', last, column', offset', ?_, ?_⟩
  · rw [List.append_assoc, List.append_assoc, hfirst, hnext, hsecond]
  · rwa [List.append_assoc] at hl''

/-- The lines of a mapping make the tokens of its members. -/
theorem IsBlock.adds (h : IsBlock n members s) : ∃ us, Builds members us ∧ Adds n s us := by
  induction h with
  | @scalar n style text value k v hk hv =>
      cases hv with
      | @scalar style' text' w j hw =>
          exact ⟨_, builds_scalar style style' text text', adds_scalar hk hw⟩
      | omitted =>
          rw [List.append_nil]
          exact ⟨_, builds_omitted style text, adds_omitted hk⟩
  | @mapping n m style text members k e s hk he hnm _ ih =>
      obtain ⟨us, hbuilds, hadds⟩ := ih
      exact ⟨_, hbuilds.mapping style text, hadds.mapping hk he hnm⟩
  | @append n members members' s e t _ he ht ih ih' =>
      obtain ⟨us, hbuilds, hadds⟩ := ih
      obtain ⟨us', hbuilds', hadds'⟩ := ih'
      exact ⟨_, hbuilds.append hbuilds', hadds.append he ht hadds'⟩

/-! ## Documents -/

/-- A document without content, or with one block mapping. The start of a document may be marked. -/
inductive IsDocument : Node → List Char → Prop
  | empty {s z : List Char} : AreFillers s → IsFiller z → IsDocument .empty (s ++ z)
  | bare {n : Nat} {members : List (Node × Node)} {f s z : List Char} :
      AreFillers f → IsBlock n members s → EndsText z →
      IsDocument (.mapping none members) (f ++ (s ++ z))
  | marked {n : Nat} {members : List (Node × Node)} {e s z : List Char} :
      EndsLine e → IsBlock n members s → EndsText z →
      IsDocument (.mapping none members) ('-' :: '-' :: '-' :: (e ++ (s ++ z)))

/-- The text of a document, with line ends of any kind. -/
def Node.IsText (node : Node) (text : String) : Prop :=
  (∀ c ∈ text.toList, isAllowed c = true) ∧ IsDocument node (unifyBreaks text.toList)

/-- The mark of the start of a document. -/
theorem tokens?_documentStart (he : EndsLine e) (u : List Char) :
    ∃ line, initial.tokens? (place 0 0 0 ('-' :: '-' :: '-' :: (e ++ u))) =
      (standing [.documentStart] [] true).tokens? (place line 0 0 u) := by
  obtain ⟨line, -, hline⟩ :=
    tokens?_endsLine (l := standing [.documentStart] [] false) rfl he 0 3 3 u
  have hstarts : Starts '-' := by constructor <;> decide
  have hnone : ∀ d ∈ ([] : List Nat).head?, d ≤ 0 := nofun
  have hstands : Stands (standing [] [] true) 0 0 [] [] := stands_standing hnone [] true 0
  have hplace : place 0 0 0 ('-' :: '-' :: '-' :: (e ++ u)) =
      ⟨'-', 0, 0, 0⟩ :: ⟨'-', 0, 1, 1⟩ :: ⟨'-', 0, 2, 2⟩ :: place 0 3 3 (e ++ u) := rfl
  have hmarker : isMarker '-'
      (⟨'-', 0, 0, 0⟩ :: ⟨'-', 0, 1, 1⟩ :: ⟨'-', 0, 2, 2⟩ :: place 0 3 3 (e ++ u)) = true := by
    rw [isMarker, endsWord_place (he.head? u)]
    rfl
  refine ⟨line, Eq.trans ?_ hline⟩
  rw [hplace]
  have hread : Lexeme.read? false (standing [] [] true).least ⟨'-', 0, 0, 0⟩
      (⟨'-', 0, 1, 1⟩ :: ⟨'-', 0, 2, 2⟩ :: place 0 3 3 (e ++ u)) =
        some (.outside .documentStart, place 0 3 3 (e ++ u)) := by
    rw [Lexeme.read?, if_neg (by rintro ⟨-, h⟩; exact absurd h (by decide)), if_pos hmarker]
    rfl
  exact tokens?_cons (hstarts.skip true 0 0 0 _) (hstands.reach? true) hread rfl

/-- The lines of a mapping up to the end of the text. -/
theorem tokens?_block {us : List Token} (h : Adds n s us) {z : List Char} (hz : EndsText z)
    (ts : List Token) (line : Nat) :
    (standing ts [] true).tokens? (place line 0 0 (s ++ z)) =
      some (ts ++ .blockMapping :: (us ++ [.blockEnd])) := by
  have hnone : ∀ {q : Nat → Prop}, ∀ d ∈ ([] : List Nat).head?, q d := nofun
  have hstands : Stands (standing ts [] true) line n ts [] := stands_standing hnone ts true line
  obtain ⟨l, line', column, offset, hread, hl⟩ :=
    h hstands rfl (.first hnone) z (endsMemberAt_endsText hz n)
  rw [hread, tokens?_endsText hl hz]
  simp

/-- What a document writes is read from it. -/
theorem IsDocument.ofTokens? {node : Node} (h : IsDocument node s) :
    (initial.tokens? (place 0 0 0 s)).bind Node.ofTokens? = some node := by
  cases h with
  | @empty s z hs hz =>
      obtain ⟨line, -, hskip⟩ := skip_fillers_append hs 0 z
      have hend : initial.tokens? (place 0 0 0 (s ++ z)) = initial.finish? := by
        refine tokens?_end ?_
        show (skip false false true _).2 = []
        rw [hskip, skip_filler_end hz]
      rw [hend]
      rfl
  | @bare n members f s z hf hs hz =>
      obtain ⟨us, hbuilds, hadds⟩ := hs.adds
      obtain ⟨line, -, hskip⟩ := skip_fillers_append hf 0 (s ++ z)
      have hfirst : initial.tokens? (place 0 0 0 (f ++ (s ++ z))) =
          (standing [] [] true).tokens? (place line 0 0 (s ++ z)) :=
        tokens?_congr (l := initial) hskip
      rw [hfirst, tokens?_block hadds hz, Option.bind_some, hbuilds.ofTokens? [] (.inl rfl)]
  | @marked n members e s z he hs hz =>
      obtain ⟨us, hbuilds, hadds⟩ := hs.adds
      obtain ⟨line, hline⟩ := tokens?_documentStart he (s ++ z)
      rw [hline, tokens?_block hadds hz, Option.bind_some, hbuilds.ofTokens? _ (.inr rfl)]

/-- The text of a document is read as its node. -/
theorem Node.IsText.read? {node : Node} {text : String} (h : node.IsText text) :
    Node.read? text = some node := by
  obtain ⟨hallowed, hdocument⟩ := h
  rw [Node.read?, Token.all?, cells?, if_pos (List.all_eq_true.2 hallowed), Option.bind_some,
    hdocument.ofTokens?]

end IrSurvey.Yaml
