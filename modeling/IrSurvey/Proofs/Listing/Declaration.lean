import IrSurvey.Proofs.Listing.Binding
import IrSurvey.Proofs.Listing.Qualifier
import IrSurvey.Proofs.Text.Line

/-!
The grammar of global declarations. A line declares a global exactly if it is written in the form
below, and the declarations of a text are those of its lines in order.
-/
namespace IrSurvey.Listing.Declaration
open Text

/-! ## The form of a line -/

/-- The spelling of a qualifier of a global. -/
inductive IsQualifier : List Char → Prop
  | listed {q : String} : q ∈ globalQualifiers → IsQualifier q.toList
  | addressSpace {digits : List Char} : digits ≠ [] → (∀ c ∈ digits, isDigit c = true) →
      IsQualifier ("addrspace(".toList ++ (digits ++ [')']))

/-- A qualifier and the gap behind it. -/
structure Qualified where
  word : List Char
  gap : List Char
  isQualifier_word : IsQualifier word
  gap_ne_nil : gap ≠ []
  isGap_gap : ∀ c ∈ gap, isGap c = true

def Qualified.text (q : Qualified) : List Char :=
  q.word ++ q.gap

/-- The parts of a line that declares a global: a bound symbol, qualifiers, a keyword, and a rest
that does not go on with the keyword. -/
structure Form where
  indent : List Char
  name : List Char
  beforeSign : List Char
  afterSign : List Char
  qualifiers : List Qualified
  kind : GlobalKind
  rest : List Char
  isGap_indent : ∀ c ∈ indent, isGap c = true
  isSymbol_name : IsSymbol name
  isGap_beforeSign : ∀ c ∈ beforeSign, isGap c = true
  isGap_afterSign : ∀ c ∈ afterSign, isGap c = true
  boundary : ∀ c ∈ rest.head?, isWordChar c = false

namespace Form

/-- The text of the line behind the equals sign and its gap. -/
def initializer (f : Form) : List Char :=
  f.qualifiers.flatMap Qualified.text ++ (f.kind.keyword.toList ++ f.rest)

def text (f : Form) : List Char :=
  f.indent ++ '@' :: (f.name ++ (f.beforeSign ++ '=' :: (f.afterSign ++ f.initializer)))

def global (f : Form) : Global :=
  { name := String.ofList f.name, kind := f.kind, tail := String.ofList (trim f.rest) }

end Form

/-- The line is written in the form of a declaration of this global. -/
def Declares (line : List Char) (g : Global) : Prop :=
  ∃ f : Form, f.text = line ∧ f.global = g

/-- Lines and what they declare: one global for each line in the form of a declaration, and none for
any other. -/
inductive DeclaresInOrder : List (List Char) → List Global → Prop
  | nil : DeclaresInOrder [] []
  | declared {line : List Char} {g : Global} {ls : List (List Char)} {gs : List Global} :
      Declares line g → DeclaresInOrder ls gs → DeclaresInOrder (line :: ls) (g :: gs)
  | other {line : List Char} {ls : List (List Char)} {gs : List Global} :
      (∀ g, ¬ Declares line g) → DeclaresInOrder ls gs → DeclaresInOrder (line :: ls) gs

variable {s t r w name line : List Char} {g : Global} {kind : GlobalKind} {p : Global × List Char}

/-! ## Qualifiers -/

theorem isAddressSpace_iff :
    isAddressSpace w = true ↔ ∃ digits, digits ≠ [] ∧ (∀ c ∈ digits, isDigit c = true) ∧
      w = "addrspace(".toList ++ (digits ++ [')']) := by
  unfold isAddressSpace
  split
  next r hr =>
      rw [isPrefixOf?_eq_some_iff.1 hr]
      simp only [Bool.and_eq_true, decide_eq_true_eq, List.all_eq_true]
      constructor
      · rintro ⟨⟨hlast, hne⟩, hdigits⟩
        obtain ⟨digits, rfl⟩ := List.getLast?_eq_some_iff.1 hlast
        rw [List.dropLast_concat] at hne hdigits
        exact ⟨digits, hne, hdigits, rfl⟩
      · rintro ⟨digits, hne, hdigits, he⟩
        obtain rfl := List.append_cancel_left he
        rw [List.dropLast_concat, List.getLast?_concat]
        exact ⟨⟨rfl, hne⟩, hdigits⟩
  next hr =>
      refine ⟨nofun, ?_⟩
      rintro ⟨digits, -, -, rfl⟩
      rw [isPrefixOf?_eq_some_iff.2 rfl] at hr
      cases hr

theorem isGlobalQualifier_iff : isGlobalQualifier w = true ↔ IsQualifier w := by
  rw [isGlobalQualifier, Bool.or_eq_true, List.contains_iff_mem, isAddressSpace_iff]
  constructor
  · rintro (hlisted | ⟨digits, hne, hdigits, rfl⟩)
    · exact String.toList_ofList (l := w) ▸ IsQualifier.listed hlisted
    · exact .addressSpace hne hdigits
  · rintro (⟨hlisted⟩ | ⟨hne, hdigits⟩)
    · exact .inl (by rwa [String.ofList_toList])
    · exact .inr ⟨_, hne, hdigits, rfl⟩

theorem IsQualifier.ne_nil (h : IsQualifier w) : w ≠ [] := by
  cases h with
  | listed hq =>
      have hne : ∀ q ∈ globalQualifiers, q.toList ≠ [] := by decide
      exact hne _ hq
  | addressSpace => exact nofun

theorem IsQualifier.noBlank (h : IsQualifier w) : NoBlank w := by
  cases h with
  | listed hq =>
      have hsolid : ∀ q ∈ globalQualifiers, NoBlank q.toList := by decide
      exact hsolid _ hq
  | addressSpace hne hdigits =>
      have hopen : NoBlank "addrspace(".toList := by decide
      have hclose : NoBlank [')'] := by decide
      refine List.forall_mem_append.2 ⟨hopen, List.forall_mem_append.2 ⟨fun c hc => ?_, hclose⟩⟩
      exact Bool.eq_false_iff.2 fun hblank =>
        Bool.eq_false_iff.1 (isDigit_of_isBlank hblank) (hdigits c hc)

/-- No qualifier starts with a keyword. -/
theorem IsQualifier.not_starts_keyword (h : IsQualifier w) (kind : GlobalKind) :
    ¬ kind.keyword.toList <+: w := by
  cases h with
  | listed hq =>
      have hnot : ∀ q ∈ globalQualifiers, ¬ kind.keyword.toList <+: q.toList := by
        cases kind <;> decide
      exact hnot _ hq
  | addressSpace =>
      rintro ⟨r, hr⟩
      have hhead := congrArg List.head? hr
      cases kind with
      | global => exact absurd hhead (show some 'g' ≠ some 'a' by decide)
      | constant => exact absurd hhead (show some 'c' ≠ some 'a' by decide)

theorem isGlobalQualifier_word (w : List Char) (h : isGlobalQualifier w) :
    w ≠ [] ∧ ∀ c ∈ w, isGap c = false := by
  have hw := isGlobalQualifier_iff.1 h
  refine ⟨hw.ne_nil, fun c hc => Bool.eq_false_iff.2 fun hgap => ?_⟩
  exact Bool.eq_false_iff.1 (hw.noBlank c hc) (isBlank_of_isGap hgap)

theorem newline_not_mem_of_isGlobalQualifier (w : List Char) (h : isGlobalQualifier w) :
    '\n' ∉ w :=
  fun hmem => absurd ((isGlobalQualifier_iff.1 h).noBlank _ hmem) (by decide)

theorem qualifierRun_text (qs : List Qualified) :
    QualifierRun isGap isGlobalQualifier (qs.flatMap Qualified.text) := by
  induction qs with
  | nil => exact .nil
  | cons q qs ih =>
      exact .cons (isGlobalQualifier_iff.2 q.isQualifier_word) q.gap_ne_nil q.isGap_gap ih

theorem exists_qualified_of_run (h : QualifierRun isGap isGlobalQualifier r) :
    ∃ qs : List Qualified, r = qs.flatMap Qualified.text := by
  induction h with
  | nil => exact ⟨[], rfl⟩
  | @cons w gap r hw hne hgap hr ih =>
      obtain ⟨qs, rfl⟩ := ih
      exact ⟨⟨w, gap, isGlobalQualifier_iff.1 hw, hne, hgap⟩ :: qs, rfl⟩

/-! ## The keyword -/

theorem afterKeyword?_eq_some_iff :
    afterKeyword? kind s = some r ↔
      s = kind.keyword.toList ++ r ∧ ∀ c ∈ r.head?, isWordChar c = false := by
  have hboundary : r.head?.any isWordChar = false ↔ ∀ c ∈ r.head?, isWordChar c = false := by
    cases r with
    | nil => simp
    | cons c r => simp
  rw [← isPrefixOf?_eq_some_iff, ← hboundary, afterKeyword?]
  cases kind.keyword.toList.isPrefixOf? s with
  | none => simp
  | some t =>
      cases ht : t.head?.any isWordChar with
      | true =>
          refine ⟨fun h => by simp [ht] at h, ?_⟩
          rintro ⟨he, hr⟩
          obtain rfl := Option.some.inj he
          rw [ht] at hr
          cases hr
      | false =>
          simp only [ht, Bool.false_eq_true, if_false, Option.some.injEq]
          exact ⟨fun he => ⟨he, he ▸ ht⟩, And.left⟩

theorem keyword?_eq_some_iff :
    keyword? s = some (kind, r) ↔
      s = kind.keyword.toList ++ r ∧ ∀ c ∈ r.head?, isWordChar c = false := by
  rw [← afterKeyword?_eq_some_iff, keyword?]
  cases hglobal : afterKeyword? .global s with
  | none =>
      cases kind with
      | global => simp [hglobal]
      | constant => simp
  | some t =>
      cases kind with
      | global => simp [hglobal]
      | constant =>
          -- the two keywords start with different letters
          have hnone : afterKeyword? .constant s ≠ some r := by
            intro hconstant
            have hs := (afterKeyword?_eq_some_iff.1 hglobal).1
            rw [(afterKeyword?_eq_some_iff.1 hconstant).1] at hs
            exact absurd (congrArg List.head? hs) (show some 'c' ≠ some 'g' by decide)
          simp [hnone]

theorem keyword?_append_newline (s t : List Char) :
    keyword? (s ++ '\n' :: t) = (keyword? s).map fun q => (q.1, q.2 ++ '\n' :: t) := by
  have hafter : ∀ kind : GlobalKind,
      afterKeyword? kind (s ++ '\n' :: t) = (afterKeyword? kind s).map (· ++ '\n' :: t) := by
    intro kind
    have hkeyword : '\n' ∉ kind.keyword.toList := by cases kind <;> decide
    rw [afterKeyword?, afterKeyword?, isPrefixOf?_append_newline hkeyword]
    cases kind.keyword.toList.isPrefixOf? s with
    | none => rfl
    | some r =>
        have hnewline : isWordChar '\n' = false := by decide
        cases r with
        | nil => simp [hnewline]
        | cons c r => cases hc : isWordChar c <;> simp [hc]
  rw [keyword?, keyword?, hafter, hafter]
  cases afterKeyword? .global s with
  | some r => rfl
  | none => cases afterKeyword? .constant s <;> rfl

theorem head?_keyword_append (kind : GlobalKind) (r : List Char) :
    ∀ c ∈ (kind.keyword.toList ++ r).head?, isGap c = false := by
  cases kind with
  | global => exact forall_head?_cons (by decide)
  | constant => exact forall_head?_cons (by decide)

/-! ## Reading a line -/

theorem dropQualifiers_initializer (f : Form) :
    dropQualifiers isGap isGlobalQualifier f.initializer = f.kind.keyword.toList ++ f.rest := by
  rw [Form.initializer, (qualifierRun_text f.qualifiers).dropQualifiers_append
    isGlobalQualifier_word (head?_keyword_append f.kind f.rest)]
  refine dropQualifiers_eq_self (Bool.eq_false_iff.2 fun hk => ?_)
  have hkeyword : ∀ c ∈ f.kind.keyword.toList, (!isGap c) = true :=
    List.all_eq_true.1 (by cases f.kind <;> decide)
  rw [List.takeWhile_append_of_pos hkeyword] at hk
  exact (isGlobalQualifier_iff.1 hk).not_starts_keyword f.kind (List.prefix_append _ _)

/-- What is read of a text in the form of a declaration. -/
def Form.reading (f : Form) : Global × List Char :=
  ({ f.global with tail := String.ofList (trim (f.rest.takeWhile (· ≠ '\n'))) },
    f.rest.dropWhile (· ≠ '\n'))

theorem read?_text (f : Form) : read? f.text = some f.reading := by
  have hbinding : binding? isGap f.text = some (f.name, f.afterSign ++ f.initializer) :=
    (binding?_eq_some_iff delimits_gap (by decide)).2 ⟨f.isSymbol_name, f.indent, f.beforeSign,
      f.isGap_indent, f.isGap_beforeSign, rfl⟩
  have hhead : ∀ c ∈ f.initializer.head?, isGap c = false :=
    (qualifierRun_text f.qualifiers).head?_append isGlobalQualifier_word
      (head?_keyword_append f.kind f.rest)
  have hgap : (f.afterSign ++ f.initializer).dropWhile isGap = f.initializer := by
    rw [List.dropWhile_append_of_pos f.isGap_afterSign, dropWhile_eq_self hhead]
  have hkeyword : keyword? (f.kind.keyword.toList ++ f.rest) = some (f.kind, f.rest) :=
    keyword?_eq_some_iff.2 ⟨rfl, f.boundary⟩
  simp only [read?, hbinding, hgap, dropQualifiers_initializer, hkeyword, Option.map_some]
  rfl

/-- Whatever is read is in the form of a declaration. -/
theorem exists_form_of_read? (h : read? s = some p) : ∃ f : Form, f.text = s ∧ f.reading = p := by
  unfold read? at h
  split at h
  next => cases h
  next name r hbinding =>
      obtain ⟨⟨kind, rest⟩, hkeyword, rfl⟩ := Option.map_eq_some_iff.1 h
      obtain ⟨hname, indent, gap, hindent, hgap, rfl⟩ :=
        (binding?_eq_some_iff delimits_gap (by decide)).1 hbinding
      obtain ⟨hrest, hboundary⟩ := keyword?_eq_some_iff.1 hkeyword
      obtain ⟨run, hrun, hs⟩ :=
        exists_run_dropQualifiers isGap isGlobalQualifier (r.dropWhile isGap)
      obtain ⟨qs, rfl⟩ := exists_qualified_of_run hrun
      refine ⟨⟨indent, name, gap, r.takeWhile isGap, qs, kind, rest, hindent, hname, hgap,
        fun _ hc => List.mem_takeWhile_imp hc, hboundary⟩, ?_, rfl⟩
      have hr : r = r.takeWhile isGap ++
          (qs.flatMap Qualified.text ++ (kind.keyword.toList ++ rest)) := by
        rw [← hrest, ← hs, List.takeWhile_append_dropWhile]
      conv_rhs => rw [hr]
      rfl

theorem Form.reading_eq (f : Form) (h : '\n' ∉ f.text) : f.reading = (f.global, []) := by
  have hrest : ∀ c ∈ f.rest, decide (c ≠ '\n') = true := by
    refine fun c hc => decide_eq_true fun he => h ?_
    have hmem : '\n' ∈ f.rest := he ▸ hc
    simp [Form.text, Form.initializer, hmem]
  have htake : f.rest.takeWhile (· ≠ '\n') = f.rest := List.takeWhile_eq_self_iff.2 hrest
  have hdrop : f.rest.dropWhile (· ≠ '\n') = [] := List.dropWhile_eq_nil_iff.2 hrest
  rw [Form.reading, htake, hdrop]
  rfl

theorem read?_eq_some_iff (h : '\n' ∉ line) :
    read? line = some p ↔ Declares line p.1 ∧ p.2 = [] := by
  constructor
  · intro hread
    obtain ⟨f, rfl, rfl⟩ := exists_form_of_read? hread
    rw [f.reading_eq h]
    exact ⟨⟨f, rfl, rfl⟩, rfl⟩
  · rintro ⟨⟨f, rfl, hg⟩, hrest⟩
    rw [read?_text, f.reading_eq h, hg, ← hrest]

/-- A declaration binds its name with blanks for gaps too. -/
theorem Declares.binds (h : Declares line g) : ∃ r, Binds isBlank line g.name.toList r := by
  obtain ⟨f, rfl, rfl⟩ := h
  refine ⟨f.afterSign ++ f.initializer, ?_, f.indent, f.beforeSign,
    fun c hc => isBlank_of_isGap (f.isGap_indent c hc),
    fun c hc => isBlank_of_isGap (f.isGap_beforeSign c hc), ?_⟩
  · simpa [Form.global] using f.isSymbol_name
  · simp [Form.global, Form.text]

/-! ## Reading a text -/

/-- A declaration ends with its line at the latest. -/
theorem read?_append_newline (s t : List Char) :
    read? (s ++ '\n' :: t) = (read? s).map fun p => (p.1, p.2 ++ '\n' :: t) := by
  have hgap : ∀ c ∈ ('\n' :: t).head?, isGap c = false := forall_head?_cons (by decide)
  have hnewline : ∀ c ∈ ('\n' :: t).head?, decide (c ≠ '\n') = false :=
    forall_head?_cons (by decide)
  rw [read?, read?, binding?_append_newline (by decide)]
  cases binding? isGap s with
  | none => rfl
  | some b =>
      dsimp only [Option.map_some]
      rw [dropWhile_append_of_head? hgap, dropQualifiers_append_newline (by decide)
        newline_not_mem_of_isGlobalQualifier, keyword?_append_newline]
      cases keyword? (dropQualifiers isGap isGlobalQualifier (b.2.dropWhile isGap)) with
      | none => rfl
      | some q =>
          dsimp only [Option.map_some]
          rw [takeWhile_append_of_head? hnewline, dropWhile_append_of_head? hnewline]

theorem front?_append_newline (startsLine : Bool) (s t : List Char) :
    front? startsLine (s ++ '\n' :: t) =
      (front? startsLine s).map fun p => (p.1, p.2 ++ '\n' :: t) := by
  cases startsLine with
  | true => exact read?_append_newline s t
  | false => rfl

variable {startsLine : Bool} {c : Char}

theorem front?_nil : front? startsLine [] = none := by
  cases h : front? startsLine [] with
  | none => rfl
  | some p => exact absurd (length_front?_lt h) (Nat.not_lt_zero _)

theorem allFrom_nil : allFrom startsLine [] = [] := by
  rw [allFrom]
  split
  next hp => cases front?_nil.symm.trans hp
  next => rfl

theorem allFrom_of_eq_some (h : front? startsLine s = some (g, r)) :
    allFrom startsLine s = g :: allFrom false r := by
  rw [allFrom]
  split
  next hp =>
      obtain ⟨rfl, rfl⟩ := Prod.mk.inj (Option.some.inj (h.symm.trans hp))
      rfl
  next hp => cases h.symm.trans hp

theorem allFrom_cons_of_eq_none (h : front? startsLine (c :: s) = none) :
    allFrom startsLine (c :: s) = allFrom (c = '\n') s := by
  rw [allFrom]
  split
  next hp => cases h.symm.trans hp
  next => rfl

/-- Behind a newline the search starts afresh. -/
theorem allFrom_append_newline (startsLine : Bool) (s t : List Char) :
    allFrom startsLine (s ++ '\n' :: t) = allFrom startsLine s ++ allFrom true t := by
  fun_induction allFrom startsLine s with
  | case1 startsLine s g rest hread ih =>
      have hfront := front?_append_newline startsLine s t
      rw [hread] at hfront
      rw [allFrom_of_eq_some hfront, ih, List.cons_append]
  | case2 startsLine hread =>
      have hfront := front?_append_newline startsLine [] t
      rw [hread] at hfront
      rw [List.nil_append] at hfront ⊢
      rw [allFrom_cons_of_eq_none hfront]
      rfl
  | case3 startsLine c s hread ih =>
      have hfront := front?_append_newline startsLine (c :: s) t
      rw [hread] at hfront
      rw [List.cons_append] at hfront ⊢
      rw [allFrom_cons_of_eq_none hfront, ih]

theorem all_append_newline (s t : List Char) : all (s ++ '\n' :: t) = all s ++ all t :=
  allFrom_append_newline true s t

theorem allFrom_false (h : '\n' ∉ line) : allFrom false line = [] := by
  induction line with
  | nil => exact allFrom_nil
  | cons c line ih =>
      have hc : c ≠ '\n' := fun he => h (he ▸ List.mem_cons_self)
      rw [allFrom_cons_of_eq_none (by rfl), decide_eq_false hc]
      exact ih (List.not_mem_of_not_mem_cons h)

theorem all_of_declares (h : '\n' ∉ line) (hg : Declares line g) : all line = [g] := by
  have hfront : front? true line = some (g, []) := (read?_eq_some_iff h).2 ⟨hg, rfl⟩
  rw [all, allFrom_of_eq_some hfront, allFrom_nil]

theorem all_of_not_declares (h : '\n' ∉ line) (hline : ∀ g, ¬ Declares line g) : all line = [] := by
  have hfront : front? true line = none :=
    Option.eq_none_iff_forall_ne_some.2 fun p hp => hline p.1 ((read?_eq_some_iff h).1 hp).1
  cases line with
  | nil => exact allFrom_nil
  | cons c line =>
      have hc : c ≠ '\n' := fun he => h (he ▸ List.mem_cons_self)
      rw [all, allFrom_cons_of_eq_none hfront, decide_eq_false hc]
      exact allFrom_false (List.not_mem_of_not_mem_cons h)

theorem mem_all_line_iff (h : '\n' ∉ line) : g ∈ all line ↔ Declares line g := by
  constructor
  · intro hmem
    by_cases hline : ∃ g', Declares line g'
    · obtain ⟨g', hg'⟩ := hline
      rw [all_of_declares h hg', List.mem_singleton] at hmem
      exact hmem ▸ hg'
    · rw [all_of_not_declares h fun g' hg' => hline ⟨g', hg'⟩] at hmem
      cases hmem
  · intro hg
    rw [all_of_declares h hg]
    exact List.mem_singleton_self g

theorem mem_all_iff : g ∈ all s ↔ ∃ line ∈ lines s, Declares line g := by
  rw [eq_flatMap_lines all_append_newline s, List.mem_flatMap]
  constructor
  · rintro ⟨line, hline, hg⟩
    exact ⟨line, hline, (mem_all_line_iff (not_mem_of_mem_lines hline)).1 hg⟩
  · rintro ⟨line, hline, hg⟩
    exact ⟨line, hline, (mem_all_line_iff (not_mem_of_mem_lines hline)).2 hg⟩

theorem flatMap_all_eq_iff {ls : List (List Char)} {gs : List Global} (h : ∀ l ∈ ls, '\n' ∉ l) :
    ls.flatMap all = gs ↔ DeclaresInOrder ls gs := by
  constructor
  · rintro rfl
    induction ls with
    | nil => exact .nil
    | cons l ls ih =>
        obtain ⟨hl, hls⟩ := List.forall_mem_cons.1 h
        rw [List.flatMap_cons]
        by_cases hline : ∃ g, Declares l g
        · obtain ⟨g, hg⟩ := hline
          rw [all_of_declares hl hg]
          exact .declared hg (ih hls)
        · have hnone : ∀ g, ¬ Declares l g := fun g hg => hline ⟨g, hg⟩
          rw [all_of_not_declares hl hnone]
          exact .other hnone (ih hls)
  · intro hgs
    induction hgs with
    | nil => rfl
    | declared hg hgs ih =>
        obtain ⟨hl, hls⟩ := List.forall_mem_cons.1 h
        rw [List.flatMap_cons, all_of_declares hl hg, ih hls]
        rfl
    | other hnone hgs ih =>
        obtain ⟨hl, hls⟩ := List.forall_mem_cons.1 h
        rw [List.flatMap_cons, all_of_not_declares hl hnone, ih hls]
        rfl

/-- The declarations of a text are those of its lines in order, one for each line in the form of a
declaration and none for any other; and those of two texts with a newline between them are the
declarations of the first and then those of the second. -/
theorem all_eq_iff_declaresInOrder :
    (∀ (s : List Char) (gs : List Global), all s = gs ↔ DeclaresInOrder (lines s) gs) ∧
      ∀ a b : List Char, all (a ++ '\n' :: b) = all a ++ all b := by
  refine ⟨fun s gs => ?_, all_append_newline⟩
  rw [eq_flatMap_lines all_append_newline s]
  exact flatMap_all_eq_iff fun l hl => not_mem_of_mem_lines hl

end IrSurvey.Listing.Declaration
