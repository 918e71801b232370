import Mathlib.Data.List.Forall2
import IrSurvey.Proofs.Listing.Header
import IrSurvey.Proofs.Text.Bracket

/-!
Definitions and the texts that they are read from. Whatever the text, each definition is read at a
place of its own, where the text spells it out; and definitions that are written in the plain
spelling, between any other text, are all read back.
-/
namespace IrSurvey.Listing
open Text

namespace Definition

/-- The body ends at its brace, or it is what remains of a text in which its brace never closes. -/
inductive Ending : Bool → List Char → List Char → Prop
  | closed {body rest : List Char} : Balanced '{' '}' body → Ending true body ('}' :: rest)
  | unclosed {body : List Char} : StaysOpen '{' '}' 0 body → Ending false body []

/-- How a text starts that a definition is read from. -/
structure Reading (s : List Char) (d : Definition) where
  lead : List Char
  raw : List Char
  gap : List Char
  nameGap : List Char
  params : List Char
  attributes : List Char
  rest : List Char
  text_eq : s = "define".toList ++ lead ++ raw ++ gap ++ '@' :: d.name.toList ++ nameGap ++
    '(' :: params ++ ')' :: attributes ++ '{' :: d.body.toList ++ rest
  type_cut : Header.TypeCut lead raw gap d.returnType.toList
  type_no_sigil : '@' ∉ raw
  name_isSymbol : IsSymbol d.name.toList
  nameGap_blank : AllBlank nameGap
  params_balanced : Balanced '(' ')' params
  trim_params : trim params = d.params.toList
  attributes_no_brace : '{' ∉ attributes
  attributes_on_line : '\n' ∉ attributes
  ending : Ending d.closed d.body.toList rest

/-- The definitions are read at ascending places of the text. -/
def ReadInOrder (s : List Char) (ds : List Definition) : Prop :=
  ∃ ps : List Nat, ps.Pairwise (· < ·) ∧
    List.Forall₂ (fun p d => Nonempty (Reading (s.drop p) d)) ps ds

variable {s : List Char} {d : Definition} {ds : List Definition}

theorem readInOrder_nil : ReadInOrder s [] :=
  ⟨[], .nil, .nil⟩

/-- Text in front shifts every place. -/
theorem forall₂_reading_append {ps : List Nat} (u : List Char)
    (h : List.Forall₂ (fun p d => Nonempty (Reading (s.drop p) d)) ps ds) :
    List.Forall₂ (fun p d => Nonempty (Reading ((u ++ s).drop p) d)) (ps.map (u.length + ·)) ds := by
  rw [List.forall₂_map_left_iff]
  exact h.imp fun p d h => by simpa only [List.drop_length_add_append] using h

theorem pairwise_map_add {ps : List Nat} (n : Nat) (h : ps.Pairwise (· < ·)) :
    (ps.map (n + ·)).Pairwise (· < ·) := by
  rw [List.pairwise_map]
  exact h.imp fun h => Nat.add_lt_add_left h _

theorem ReadInOrder.append (h : ReadInOrder s ds) (u : List Char) : ReadInOrder (u ++ s) ds := by
  obtain ⟨ps, hlt, hread⟩ := h
  exact ⟨ps.map (u.length + ·), pairwise_map_add _ hlt, forall₂_reading_append u hread⟩

theorem ReadInOrder.cons {u : List Char} (h : ReadInOrder s ds) (hu : u ≠ [])
    (hd : Reading (u ++ s) d) : ReadInOrder (u ++ s) (d :: ds) := by
  obtain ⟨ps, hlt, hread⟩ := h
  refine ⟨0 :: ps.map (u.length + ·), ?_, .cons ⟨hd⟩ (forall₂_reading_append u hread)⟩
  rw [List.pairwise_cons]
  refine ⟨?_, pairwise_map_add _ hlt⟩
  intro p hp
  obtain ⟨q, -, rfl⟩ := List.mem_map.1 hp
  have hpos := List.length_pos_iff.2 hu
  omega

/-- A body is cut off where its brace closes, or not at all. -/
theorem ending_splitClose? (text : List Char) :
    ∃ rest, text = (splitClose? '{' '}' text).elim text Prod.fst ++ rest ∧
      Ending (splitClose? '{' '}' text).isSome ((splitClose? '{' '}' text).elim text Prod.fst)
        rest := by
  cases h : splitClose? '{' '}' text with
  | none =>
      exact ⟨[], (List.append_nil _).symm, .unclosed ((splitClose?_eq_none_iff (by decide)).1 h)⟩
  | some p =>
      obtain ⟨rfl, hbody⟩ := (splitClose?_eq_some_iff (by decide)).1 (show _ = some (p.1, p.2) from h)
      exact ⟨'}' :: p.2, rfl, .closed hbody⟩

theorem ofHeader?_sound {h : Header} (hd : ofHeader? h = some d) :
    ∃ params attributes rest,
      h.rest = params ++ ')' :: attributes ++ '{' :: d.body.toList ++ rest ∧
        d.name.toList = h.name ∧ d.returnType.toList = h.returnType ∧
        Balanced '(' ')' params ∧ trim params = d.params.toList ∧
        '{' ∉ attributes ∧ '\n' ∉ attributes ∧ Ending d.closed d.body.toList rest := by
  unfold ofHeader? at hd
  split at hd
  next => cases hd
  next params tail hsplit =>
      obtain ⟨hrest, hparams⟩ := (splitClose?_eq_some_iff (by decide)).1 hsplit
      split at hd
      next text hbrace =>
          obtain rfl := Option.some.inj hd
          obtain ⟨rest, htext, hending⟩ := ending_splitClose? text
          have hstop : ∀ c ∈ tail.takeWhile (fun c => c ≠ '{' && c ≠ '\n'), c ≠ '{' ∧ c ≠ '\n' :=
            fun c hc => by simpa using List.mem_takeWhile_imp hc
          have htail := eq_takeWhile_append_cons hbrace
          generalize tail.takeWhile (fun c => c ≠ '{' && c ≠ '\n') = attributes at hstop htail
          refine ⟨params, attributes, rest, ?_, String.toList_ofList, String.toList_ofList, hparams,
            String.toList_ofList.symm, fun hc => (hstop _ hc).1 rfl, fun hc => (hstop _ hc).2 rfl, ?_⟩
          · rw [String.toList_ofList, List.append_assoc, List.cons_append, ← htext, hrest, htail]
            simp
          · rw [String.toList_ofList]
            exact hending
      next => cases hd

/-- A definition has the name of the header that it is read from. -/
theorem isSymbol_name_of_mem_all (hmem : d ∈ all s) : IsSymbol d.name.toList := by
  fun_induction all s with
  | case1 s h hread ih =>
      rcases List.mem_append.1 hmem with hmem | hmem
      · obtain ⟨-, -, -, -, -, -, -, hname, -⟩ := Header.read?_sound hread
        obtain ⟨-, -, -, -, hname', -⟩ := ofHeader?_sound (Option.mem_toList.1 hmem)
        exact hname' ▸ hname
      · exact ih hmem
  | case2 hread => cases hmem
  | case3 c r hread ih => exact ih hmem

/-- The definitions of any text are read at ascending places of it. -/
theorem all_readInOrder (s : List Char) : ReadInOrder s (all s) := by
  fun_induction all s with
  | case1 s h hread ih =>
      obtain ⟨lead, raw, gap, nameGap, hs, hcut, hsigil, hname, hgap⟩ := Header.read?_sound hread
      have hne : "define".toList ++ lead ++ raw ++ gap ++ '@' :: h.name ++ nameGap ++ ['('] ≠ [] := by
        simp
      have hs' : s = ("define".toList ++ lead ++ raw ++ gap ++ '@' :: h.name ++ nameGap ++ ['(']) ++
          h.rest := by
        rw [hs, List.append_assoc _ ['(']]
        rfl
      cases hd : ofHeader? h with
      | none =>
          rw [hs']
          exact ih.append _
      | some d =>
          obtain ⟨params, attributes, rest, hrest, hname', htype, hparams, htrim, hbrace, hline,
            hending⟩ := ofHeader?_sound hd
          rw [hs']
          refine ih.cons hne ?_
          rw [← hs']
          exact {
            lead, raw, gap, nameGap, params, attributes, rest
            text_eq := by
              rw [hs, hrest, hname']
              simp only [List.append_assoc, List.cons_append]
            type_cut := htype ▸ hcut
            type_no_sigil := hsigil
            name_isSymbol := hname' ▸ hname
            nameGap_blank := hgap
            params_balanced := hparams
            trim_params := htrim
            attributes_no_brace := hbrace
            attributes_on_line := hline
            ending := hending }
  | case2 hread => exact readInOrder_nil
  | case3 c s hread ih => exact ih.append [c]

/-! ## Writing -/

/-- What is written of a definition: each piece is free of what would end it early. -/
structure Source where
  qualifiers : List (List Char)
  type : List Char
  name : List Char
  params : List Char
  attributes : List Char
  body : List Char
  qualifiers_known : ∀ q ∈ qualifiers, isHeaderQualifier q = true
  type_isType : Header.IsType type
  name_isSymbol : IsSymbol name
  params_balanced : Balanced '(' ')' params
  attributes_no_brace : '{' ∉ attributes
  attributes_on_line : '\n' ∉ attributes
  body_balanced : Balanced '{' '}' body

namespace Source

def header (d : Source) : List Char :=
  Header.write d.qualifiers d.type d.name

def remainder (d : Source) : List Char :=
  d.params ++ ')' :: d.attributes ++ '{' :: d.body ++ ['}']

def text (d : Source) : List Char :=
  d.header ++ d.remainder

def definition (d : Source) : Definition where
  name := String.ofList d.name
  returnType := String.ofList d.type
  params := String.ofList (trim d.params)
  body := String.ofList d.body
  closed := true

theorem header_ne_nil (d : Source) : d.header ≠ [] :=
  List.append_ne_nil_of_right_ne_nil _ (List.cons_ne_nil _ _)

theorem read?_text (d : Source) (t : List Char) :
    Header.read? (d.text ++ t) =
      some { returnType := d.type, name := d.name, rest := d.remainder ++ t } := by
  rw [text, List.append_assoc]
  exact Header.read?_write d.qualifiers_known d.type_isType d.name_isSymbol

theorem ofHeader?_remainder (d : Source) (t : List Char) :
    ofHeader? { returnType := d.type, name := d.name, rest := d.remainder ++ t } =
      some d.definition := by
  have hparams : splitClose? '(' ')' (d.remainder ++ t) =
      some (d.params, d.attributes ++ '{' :: d.body ++ '}' :: t) := by
    rw [splitClose?_eq_some_iff (by decide)]
    exact ⟨by simp [remainder], d.params_balanced⟩
  have hbody : splitClose? '{' '}' (d.body ++ '}' :: t) = some (d.body, t) := by
    rw [splitClose?_eq_some_iff (by decide)]
    exact ⟨rfl, d.body_balanced⟩
  have hstop : ∀ c ∈ d.attributes, (c ≠ '{' && c ≠ '\n') = true := by
    intro c hc
    have hbrace : c ≠ '{' := fun he => d.attributes_no_brace (he ▸ hc)
    have hline : c ≠ '\n' := fun he => d.attributes_on_line (he ▸ hc)
    simp [hbrace, hline]
  unfold ofHeader?
  simp only [hparams, List.append_assoc, List.cons_append]
  rw [dropWhile_append_cons hstop (by decide)]
  simp [hbody, definition]

end Source

/-- Definitions in their plain spelling, with other text in front and after each. -/
def write (front : List Char) (parts : List (Source × List Char)) : List Char :=
  front ++ parts.flatMap fun p => p.1.text ++ p.2

/-- The places where the definitions start. -/
def starts (front : List Char) (parts : List (Source × List Char)) : List Nat :=
  (List.range parts.length).map fun i => (write front (parts.take i)).length

/-- The keyword stands only where a definition starts. -/
def KeywordOnlyStarts (front : List Char) (parts : List (Source × List Char)) : Prop :=
  ∀ n, "define".toList <+: (write front parts).drop n → n ∈ starts front parts

instance (front : List Char) (parts : List (Source × List Char)) :
    Decidable (KeywordOnlyStarts front parts) :=
  decidable_of_iff (∀ n < (write front parts).length,
      "define".toList.isPrefixOf ((write front parts).drop n) = true → n ∈ starts front parts) <| by
    simp only [KeywordOnlyStarts, List.isPrefixOf_iff_prefix]
    refine ⟨fun h n hn => h n ?_ hn, fun h n _ hn => h n hn⟩
    by_contra hlen
    rw [List.drop_eq_nil_of_le (Nat.le_of_not_lt hlen), List.prefix_nil] at hn
    cases hn

theorem all_of_read?_eq_some {h : Header} (hs : Header.read? s = some h) :
    all s = (ofHeader? h).toList ++ all h.rest := by
  rw [all]
  split
  next h' hs' =>
      obtain rfl : h = h' := Option.some.inj (hs.symm.trans hs')
      rfl
  next hnone => exact absurd (hs.symm.trans hnone) (Option.some_ne_none h)

theorem all_cons_of_read?_eq_none {c : Char} (hs : Header.read? (c :: s) = none) :
    all (c :: s) = all s := by
  rw [all]
  split
  next h' hs' => exact absurd (hs'.symm.trans hs) (Option.some_ne_none h')
  next => rfl

theorem all_nil : all [] = [] := by
  rw [all]
  split
  next h hs => exact absurd (Header.length_rest_lt hs) (Nat.not_lt_zero _)
  next => rfl

/-- A text in which no keyword starts is passed over. -/
theorem all_append_of_no_keyword {u v : List Char}
    (h : ∀ n, "define".toList <+: (u ++ v).drop n → u.length ≤ n) : all (u ++ v) = all v := by
  induction u with
  | nil => rfl
  | cons c u ih =>
      have hnone : Header.read? (c :: (u ++ v)) = none := by
        cases hread : Header.read? (c :: (u ++ v)) with
        | none => rfl
        | some hd =>
            obtain ⟨lead, raw, gap, nameGap, hs, -⟩ := Header.read?_sound hread
            have hstart : "define".toList <+: (c :: u ++ v).drop 0 := by
              rw [List.drop_zero, List.cons_append, hs]
              simp only [List.append_assoc]
              exact List.prefix_append _ _
            exact absurd (h 0 hstart) (by simp)
      rw [List.cons_append, all_cons_of_read?_eq_none hnone]
      exact ih fun n hn => Nat.le_of_succ_le_succ (h (n + 1) hn)

theorem write_cons (front : List Char) (p : Source × List Char) (parts : List (Source × List Char)) :
    write front (p :: parts) = front ++ p.1.header ++ write (p.1.remainder ++ p.2) parts := by
  simp [write, Source.text]

/-- Past a header the keyword still stands only where a definition starts. -/
theorem KeywordOnlyStarts.tail {front : List Char} {p : Source × List Char}
    {parts : List (Source × List Char)} (h : KeywordOnlyStarts front (p :: parts)) :
    KeywordOnlyStarts (p.1.remainder ++ p.2) parts := by
  intro n hn
  have hmem : (front ++ p.1.header).length + n ∈ starts front (p :: parts) := by
    apply h
    rw [write_cons, List.drop_length_add_append]
    exact hn
  obtain ⟨i, hi, hlen⟩ := List.mem_map.1 hmem
  cases i with
  | zero =>
      have hpos := List.length_pos_iff.2 p.1.header_ne_nil
      simp only [List.take_zero, write, List.flatMap_nil, List.append_nil, List.length_append] at hlen
      omega
  | succ i =>
      rw [List.take_succ_cons, write_cons, List.length_append, Nat.add_left_cancel_iff] at hlen
      have hi' : i < parts.length := by simpa using hi
      exact List.mem_map.2 ⟨i, List.mem_range.2 hi', hlen⟩

/-- Written definitions are read back, in order and whole, whatever other text is around them. -/
theorem all_write (front : List Char) (parts : List (Source × List Char))
    (h : KeywordOnlyStarts front parts) :
    all (write front parts) = parts.map fun p => p.1.definition := by
  induction parts generalizing front with
  | nil =>
      have hskip : all (front ++ []) = all [] :=
        all_append_of_no_keyword fun n hn => nomatch h n hn
      exact hskip.trans all_nil
  | cons p parts ih =>
      have hwrite : write front (p :: parts) =
          front ++ (p.1.text ++ (p.2 ++ parts.flatMap fun p => p.1.text ++ p.2)) := by
        simp [write]
      have hskip : all (write front (p :: parts)) =
          all (p.1.text ++ (p.2 ++ parts.flatMap fun p => p.1.text ++ p.2)) := by
        rw [hwrite]
        refine all_append_of_no_keyword fun n hn => ?_
        obtain ⟨i, -, rfl⟩ := List.mem_map.1 (h n (hwrite ▸ hn))
        simp [write]
      have hrest : p.1.remainder ++ (p.2 ++ parts.flatMap fun p => p.1.text ++ p.2) =
          write (p.1.remainder ++ p.2) parts := by
        simp [write]
      rw [hskip, all_of_read?_eq_some (p.1.read?_text _), p.1.ofHeader?_remainder, hrest,
        ih _ h.tail]
      rfl

/-- Qualifiers of which one starts another, and brackets inside brackets. -/
def Source.nested : Source where
  qualifiers := ["weak".toList, "weak_odr".toList, "weak".toList]
  type := "\x7b i32, i1 \x7d".toList
  name := "swap.1".toList
  params := " ptr byval(\x7b i8 (i8) \x7d) %p, i32 %n".toList
  attributes := " #0 ".toList
  body := "\n  store \x7b i1 \x7d \x7b i1 true \x7d, ptr %p ; \x7b\x7b\x7d\x7d\n".toList
  qualifiers_known := by decide
  type_isType := ⟨by decide, by decide, by decide, by decide, by decide⟩
  name_isSymbol := ⟨by decide, List.all_eq_true.1 (by decide)⟩
  params_balanced := by decide
  attributes_no_brace := by decide
  attributes_on_line := by decide
  body_balanced := by decide

theorem all_write_nested :
    let parts := [(Source.nested, "\n\n; @def \x7b\n".toList), (Source.nested, "de".toList)]
    KeywordOnlyStarts "fine\n".toList parts ∧
      all (write "fine\n".toList parts) = [Source.nested.definition, Source.nested.definition] := by
  have h : KeywordOnlyStarts "fine\n".toList
      [(Source.nested, "\n\n; @def \x7b\n".toList), (Source.nested, "de".toList)] := by
    decide +kernel
  exact ⟨h, all_write _ _ h⟩

end Definition
end IrSurvey.Listing
