import IrSurvey.Proofs.Listing.Label

/-!
The canonical form of a body. What a body is split into is written back with one line for each
instruction and each label. The pairs that some body is split into are exactly those that come back
from what is written for them.
-/
namespace IrSurvey.Listing.Body
open Text

/-- The instructions of a body, and its labels in their places. -/
def split (body : List Char) : List String × List BlockLabel :=
  (instructions (items body), labels 0 (items body))

/-- Every semicolon of a text stands between quotes, if `before` quotes stand in front of the
text. -/
def SemicolonsQuoted (before : Nat) (s : List Char) : Prop :=
  ∀ p r, s = p ++ ';' :: r → (before + p.count '"') % 2 = 1

/-- The code of an instruction, as a line says it. -/
structure IsCode (c : List Char) : Prop where
  ne_nil : c ≠ []
  trim_eq : trim c = c
  newline_not_mem : '\n' ∉ c
  semicolonsQuoted : SemicolonsQuoted 0 c
  not_startsLabel : ¬ StartsLabel c

/-- A label without its colon. -/
def IsNumeral (s : List Char) : Prop :=
  s ≠ [] ∧ ∀ c ∈ s, isDigit c = true

/-- The labels are in the order of their places, and each has a place among the instructions. -/
structure IsCanonical (codes : List String) (ls : List BlockLabel) : Prop where
  isCode : ∀ code ∈ codes, IsCode code.toList
  isNumeral : ∀ l ∈ ls, IsNumeral l.label.toList
  sorted : ls.Pairwise (·.position ≤ ·.position)
  bounded : ∀ l ∈ ls, l.position ≤ codes.length

/-- The line that says an item and nothing else. -/
def Item.line : Item → List Char
  | .label digits => digits.toList ++ [':']
  | .instruction code => code.toList

/-- The labels at a place, in their order. -/
def labelsAt (ls : List BlockLabel) (n : Nat) : List Item :=
  (ls.filter (·.position = n)).map fun l => .label l.label

/-- The instructions from index `n` on, with the labels of each place in front of the instruction
there, or at the end. -/
def place (ls : List BlockLabel) (n : Nat) : List String → List Item
  | [] => labelsAt ls n
  | code :: codes => labelsAt ls n ++ .instruction code :: place ls (n + 1) codes

/-- One line for each instruction and each label. -/
def written (codes : List String) (ls : List BlockLabel) : List Char :=
  unlines ((place ls 0 codes).map Item.line)

variable {s line : List Char} {n : Nat} {codes : List String} {ls : List BlockLabel}
  {is : List Item}

/-! ## Comments and quotes -/

theorem semicolonsQuoted_cons {c : Char} :
    SemicolonsQuoted n (c :: s) ↔
      (c = ';' → n % 2 = 1) ∧ SemicolonsQuoted (n + [c].count '"') s := by
  have hcount : ∀ p : List Char, n + (c :: p).count '"' = n + [c].count '"' + p.count '"' :=
    fun p => by rw [← List.singleton_append, List.count_append, Nat.add_assoc]
  simp only [SemicolonsQuoted, ← hcount]
  exact forall_before_cons

/-- Reading goes on with the quotes that stand in front of the rest. -/
theorem uncomment_cons (n : Nat) (c : Char) (s : List Char) :
    uncomment (n % 2 = 1) (c :: s) =
      if c = ';' ∧ n % 2 = 0 then []
      else c :: uncomment ((n + [c].count '"') % 2 = 1) s := by
  by_cases hquote : c = '"'
  · subst hquote
    have hflip : (!decide (n % 2 = 1)) = decide ((n + 1) % 2 = 1) := by
      rw [Bool.eq_iff_iff]
      simp
      omega
    simp [uncomment, hflip]
  · have hcount : [c].count '"' = 0 := by simp [hquote]
    have heven : ¬ n % 2 = 1 ↔ n % 2 = 0 := by omega
    simp only [uncomment, hquote, hcount, if_false, decide_eq_true_eq, heven, Nat.add_zero]

theorem semicolonsQuoted_uncomment (n : Nat) (s : List Char) :
    SemicolonsQuoted n (uncomment (n % 2 = 1) s) := by
  induction s generalizing n with
  | nil => exact fun p r h => absurd h (by simp [uncomment])
  | cons c s ih =>
      rw [uncomment_cons]
      split
      next => exact fun p r h => absurd h (by simp)
      next h =>
          refine semicolonsQuoted_cons.2 ⟨fun hc => ?_, ih _⟩
          have hodd : ¬ n % 2 = 0 := fun heven => h ⟨hc, heven⟩
          omega

/-- What holds no semicolon outside quotes holds no comment. -/
theorem uncomment_eq_self (h : SemicolonsQuoted n s) : uncomment (n % 2 = 1) s = s := by
  induction s generalizing n with
  | nil => rfl
  | cons c s ih =>
      obtain ⟨hc, hs⟩ := semicolonsQuoted_cons.1 h
      rw [uncomment_cons, if_neg, ih hs]
      rintro ⟨rfl, heven⟩
      have hodd := hc rfl
      omega

/-- Text without quotes in front changes nothing, nor does any text behind. -/
theorem SemicolonsQuoted.of_append {a b : List Char} (ha : '"' ∉ a)
    (h : SemicolonsQuoted n (a ++ (s ++ b))) : SemicolonsQuoted n s := by
  rintro p r rfl
  have hp := h (a ++ p) (r ++ b) (by simp)
  rwa [List.count_append, List.count_eq_zero_of_not_mem ha, Nat.zero_add] at hp

theorem isCode_code (hline : '\n' ∉ line) (hne : code line ≠ []) (hno : ¬ StartsLabel (code line)) :
    IsCode (code line) where
  ne_nil := hne
  trim_eq := trim_trim _
  newline_not_mem := newline_not_mem_code hline
  semicolonsQuoted := by
    obtain ⟨a, b, ha, -, hcode⟩ := exists_blank_trim (uncomment false line)
    have hquote : '"' ∉ a := fun hmem => absurd (ha _ hmem) (by decide)
    have h := semicolonsQuoted_uncomment 0 line
    rw [show decide (0 % 2 = 1) = false from rfl, hcode] at h
    exact h.of_append hquote
  not_startsLabel := hno

theorem IsCode.code_eq {c : List Char} (h : IsCode c) : code c = c := by
  have hread : uncomment false c = c := uncomment_eq_self h.semicolonsQuoted
  rw [code, hread, h.trim_eq]

theorem semicolonsQuoted_iff : SemicolonsQuoted 0 s ↔ uncomment false s = s := by
  constructor
  · exact fun h => uncomment_eq_self h
  · intro h
    rw [← h]
    exact semicolonsQuoted_uncomment 0 s

instance (c : List Char) : Decidable (IsCode c) :=
  decidable_of_iff
    (c ≠ [] ∧ trim c = c ∧ '\n' ∉ c ∧ uncomment false c = c ∧ ¬ StartsLabel c)
    ⟨fun ⟨hne, htrim, hline, hread, hno⟩ => ⟨hne, htrim, hline, semicolonsQuoted_iff.2 hread, hno⟩,
      fun h => ⟨h.ne_nil, h.trim_eq, h.newline_not_mem, semicolonsQuoted_iff.1 h.semicolonsQuoted,
        h.not_startsLabel⟩⟩

instance (s : List Char) : Decidable (IsNumeral s) :=
  decidable_of_iff (s ≠ [] ∧ s.all isDigit = true) (and_congr_right' List.all_eq_true)

/-! ## Items and their lines -/

theorem IsNumeral.newline_not_mem (h : IsNumeral s) : '\n' ∉ s :=
  fun hmem => absurd (h.2 _ hmem) (by decide)

/-- An item as some line says it. -/
def Item.WellFormed : Item → Prop
  | .label digits => IsNumeral digits.toList
  | .instruction code => IsCode code.toList

theorem wellFormed_of_mem_items {i : Item} (h : i ∈ items s) : i.WellFormed := by
  obtain ⟨line, hline, hitem⟩ := List.mem_filterMap.1 h
  rcases item?_cases line with ⟨-, hnone⟩ | ⟨digits, hlabel, hsome⟩ | ⟨hne, hno, hsome⟩
  · rw [hnone] at hitem
    cases hitem
  · obtain rfl := Option.some.inj (hsome.symm.trans hitem)
    obtain ⟨hne, hdigits, -⟩ := label?_eq_some_iff.1 hlabel
    rw [Item.WellFormed, String.toList_ofList]
    exact ⟨hne, hdigits⟩
  · obtain rfl := Option.some.inj (hsome.symm.trans hitem)
    rw [Item.WellFormed, String.toList_ofList]
    exact isCode_code (not_mem_of_mem_lines hline) hne hno

theorem item?_line {i : Item} (h : i.WellFormed) : item? i.line = some i := by
  cases i with
  | label digits =>
      have hlabel := item?_label (g := []) nofun h.1 h.2 []
      simpa [Item.line] using hlabel
  | instruction code =>
      have hcode : IsCode code.toList := h
      have hnone : label? code.toList = none := by
        rw [← Option.not_isSome_iff_eq_none, ← startsLabel_iff]
        exact hcode.not_startsLabel
      simp [item?, Item.line, hcode.code_eq, hcode.ne_nil, hnone]

theorem newline_not_mem_line {i : Item} (h : i.WellFormed) : '\n' ∉ i.line := by
  cases i with
  | label digits =>
      refine fun hmem => (List.mem_append.1 hmem).elim (IsNumeral.newline_not_mem h) ?_
      exact fun hcolon => absurd hcolon (by decide)
  | instruction code => exact IsCode.newline_not_mem h

/-- Items that are written on lines of their own are read back. -/
theorem items_unlines_line (h : ∀ i ∈ is, i.WellFormed) : items (unlines (is.map Item.line)) = is := by
  by_cases hne : is = []
  · rw [hne]
    rfl
  · have hread : ∀ i ∈ is, items i.line = [i] := fun i hi => by
      rw [items, lines_eq_singleton (newline_not_mem_line (h i hi)),
        List.filterMap_cons_some (item?_line (h i hi)), List.filterMap_nil]
    calc items (unlines (is.map Item.line))
        = is.flatMap fun i => items i.line := by
          rw [items_unlines (by simpa using hne), List.flatMap_map]
      _ = is.flatMap fun i => [i] := List.flatMap_congr hread
      _ = is := List.flatMap_singleton' is

/-! ## Labels in their places -/

theorem instructions_labelsAt_append (ls : List BlockLabel) (n : Nat) (is : List Item) :
    instructions (labelsAt ls n ++ is) = instructions is := by
  unfold labelsAt
  induction ls.filter (·.position = n) with
  | nil => rfl
  | cons l ms ih => exact ih

theorem labels_labelsAt_append (ls : List BlockLabel) (n : Nat) (is : List Item) :
    labels n (labelsAt ls n ++ is) = ls.filter (·.position = n) ++ labels n is := by
  have hplace : ∀ l ∈ ls.filter (·.position = n), l.position = n := fun l hl =>
    of_decide_eq_true (List.mem_filter.1 hl).2
  unfold labelsAt
  generalize ls.filter (·.position = n) = ms at hplace
  induction ms with
  | nil => rfl
  | cons l ms ih =>
      obtain ⟨hl, hms⟩ := List.forall_mem_cons.1 hplace
      rw [List.map_cons, List.cons_append, labels, ih hms, ← hl, List.cons_append]

theorem instructions_place (ls : List BlockLabel) (n : Nat) (codes : List String) :
    instructions (place ls n codes) = codes := by
  induction codes generalizing n with
  | nil =>
      have h := instructions_labelsAt_append ls n []
      rwa [List.append_nil] at h
  | cons code codes ih =>
      rw [place, instructions_labelsAt_append]
      exact congrArg (code :: ·) (ih (n + 1))

/-- Of labels in order, those of one place come before those of later places. -/
theorem filter_position_append (h : ls.Pairwise (·.position ≤ ·.position)) (n : Nat) :
    ls.filter (·.position = n) ++ ls.filter (n + 1 ≤ ·.position) =
      ls.filter (n ≤ ·.position) := by
  induction ls with
  | nil => rfl
  | cons l ls ih =>
      obtain ⟨hl, hls⟩ := List.pairwise_cons.1 h
      rcases Nat.lt_trichotomy l.position n with hlt | heq | hgt
      · rw [List.filter_cons_of_neg (by simp; omega), List.filter_cons_of_neg (by simp; omega),
          List.filter_cons_of_neg (by simp; omega), ih hls]
      · rw [List.filter_cons_of_pos (by simp; omega), List.filter_cons_of_neg (by simp; omega),
          List.filter_cons_of_pos (by simp; omega), List.cons_append, ih hls]
      · have hlate : ∀ m ∈ l :: ls, n + 1 ≤ m.position :=
          List.forall_mem_cons.2 ⟨hgt, fun m hm => Nat.le_trans hgt (hl m hm)⟩
        have hnone : (l :: ls).filter (·.position = n) = [] :=
          List.filter_eq_nil_iff.2 fun m hm => by
            have hm := hlate m hm
            simp
            omega
        rw [hnone, List.nil_append]
        refine List.filter_congr fun m hm => decide_eq_decide.2 ?_
        have hm := hlate m hm
        omega

theorem labels_place (hsorted : ls.Pairwise (·.position ≤ ·.position))
    (hbounded : ∀ l ∈ ls, l.position ≤ n + codes.length) :
    labels n (place ls n codes) = ls.filter (n ≤ ·.position) := by
  induction codes generalizing n with
  | nil =>
      have h := labels_labelsAt_append ls n []
      rw [List.append_nil, labels, List.append_nil] at h
      rw [place, h]
      refine List.filter_congr fun l hl => decide_eq_decide.2 ?_
      have hl := hbounded l hl
      rw [List.length_nil] at hl
      omega
  | cons code codes ih =>
      have hlater : ∀ l ∈ ls, l.position ≤ n + 1 + codes.length := fun l hl => by
        have hl := hbounded l hl
        rw [List.length_cons] at hl
        omega
      rw [place, labels_labelsAt_append, labels, ih hlater, filter_position_append hsorted]

/-! ## Canonical bodies -/

theorem pairwise_labels (n : Nat) (is : List Item) :
    (labels n is).Pairwise (·.position ≤ ·.position) := by
  induction is generalizing n with
  | nil => exact .nil
  | cons i is ih =>
      cases i with
      | label digits => exact .cons le_position_of_mem_labels (ih n)
      | instruction code => exact ih (n + 1)

theorem isCanonical_split (body : List Char) : IsCanonical (split body).1 (split body).2 where
  isCode code hcode := wellFormed_of_mem_items (mem_items_of_mem_instructions hcode)
  isNumeral l hl := wellFormed_of_mem_items (mem_items_of_mem_labels hl)
  sorted := pairwise_labels 0 (items body)
  bounded l hl := by
    have h := position_le_of_mem_labels l hl
    rwa [Nat.zero_add] at h

theorem mem_place {i : Item} (h : i ∈ place ls n codes) :
    (∃ l ∈ ls, i = .label l.label) ∨ ∃ code ∈ codes, i = .instruction code := by
  have hlabel : ∀ {n}, i ∈ labelsAt ls n → ∃ l ∈ ls, i = .label l.label := fun hi => by
    obtain ⟨l, hl, rfl⟩ := List.mem_map.1 hi
    exact ⟨l, List.mem_of_mem_filter hl, rfl⟩
  induction codes generalizing n with
  | nil => exact .inl (hlabel h)
  | cons code codes ih =>
      rcases List.mem_append.1 h with h | h
      · exact .inl (hlabel h)
      · rcases List.mem_cons.1 h with rfl | h
        · exact .inr ⟨code, List.mem_cons_self, rfl⟩
        · refine (ih h).imp_right ?_
          rintro ⟨c, hc, rfl⟩
          exact ⟨c, List.mem_cons_of_mem code hc, rfl⟩

theorem split_written (h : IsCanonical codes ls) : split (written codes ls) = (codes, ls) := by
  have hitems : ∀ i ∈ place ls 0 codes, i.WellFormed := by
    intro i hi
    rcases mem_place hi with ⟨l, hl, rfl⟩ | ⟨code, hcode, rfl⟩
    · exact h.isNumeral l hl
    · exact h.isCode code hcode
  have hbounded : ∀ l ∈ ls, l.position ≤ 0 + codes.length := by simpa using h.bounded
  have hall : ls.filter (0 ≤ ·.position) = ls := List.filter_eq_self.2 fun l _ => by simp
  rw [split, written, items_unlines_line hitems, instructions_place, labels_place h.sorted hbounded,
    hall]

/-- The pairs of instructions and labels that bodies are split into are the canonical ones, and
each of them comes back from what is written for it. -/
theorem split_canonical :
    (∀ body, IsCanonical (split body).1 (split body).2) ∧
    (∀ codes ls, IsCanonical codes ls → split (written codes ls) = (codes, ls)) ∧
    ∀ body, split (written (split body).1 (split body).2) = split body :=
  ⟨isCanonical_split, fun _ _ h => split_written h, fun body => split_written (isCanonical_split body)⟩

theorem split_canonical_quoted :
    let codes := ["%0 = call ptr asm \"nop; nop\", \"=r\"()", "call void @f(ptr \"a", "ret void"]
    let ls : List BlockLabel := [⟨"0", 0⟩, ⟨"٣", 0⟩, ⟨"12", 2⟩, ⟨"3", 3⟩]
    IsCanonical codes ls ∧ split (written codes ls) = (codes, ls) := by
  intro codes ls
  have h : IsCanonical codes ls :=
    { isCode := by decide +kernel
      isNumeral := by decide +kernel
      sorted := by decide
      bounded := by decide }
  obtain ⟨-, hwritten, -⟩ := split_canonical
  exact ⟨h, hwritten codes ls h⟩

end IrSurvey.Listing.Body
