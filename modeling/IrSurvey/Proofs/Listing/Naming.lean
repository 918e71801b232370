import IrSurvey.Listing.Assembly
import IrSurvey.Proofs.Listing.Declaration
import IrSurvey.Proofs.Listing.Literal

/-!
The names of string literals. The search for literals runs over the whole text and looks for the
line around each one that it finds; what it finds is the same line by line, and a literal on the
line of a declaration has the name that is declared.
-/
namespace IrSurvey.Listing.Literal
open Text

variable {s t q seen line : List Char} {l : Literal}

/-! ## The line around a place -/

theorem lineAround_eq (hseen : '\n' ∉ seen) (hs : '\n' ∉ s) :
    lineAround seen s = seen.reverse ++ s := by
  have htake : ∀ {u : List Char}, '\n' ∉ u → u.takeWhile (· ≠ '\n') = u := fun hu =>
    List.takeWhile_eq_self_iff.2 fun c hc => decide_eq_true fun he => hu (he ▸ hc)
  rw [lineAround, htake hseen, htake hs]

/-- What stands beyond a newline is not on the line. -/
theorem lineAround_append_newline (seen front s t : List Char) :
    lineAround (seen ++ '\n' :: front) s = lineAround seen s ∧
      lineAround seen (s ++ '\n' :: t) = lineAround seen s := by
  have htake : ∀ u v : List Char,
      (u ++ '\n' :: v).takeWhile (· ≠ '\n') = u.takeWhile (· ≠ '\n') := by
    intro u v
    exact takeWhile_append_of_head? (forall_head?_cons (by decide))
  exact ⟨by rw [lineAround, htake, lineAround], by rw [lineAround, htake, lineAround]⟩

/-! ## Literals line by line -/

theorem eq_of_payload?_eq_some (h : payload? s = some (q, t)) :
    s = 'c' :: '"' :: (q ++ '"' :: t) := by
  unfold payload? at h
  split at h
  next r =>
      split at h
      next rest hrest =>
          obtain ⟨rfl, rfl⟩ := Prod.mk.inj (Option.some.inj h)
          rw [← eq_takeWhile_append_cons hrest]
      next => cases h
  next => cases h

theorem payload?_append_newline (s t : List Char) :
    payload? (s ++ '\n' :: t) = (payload? s).map fun p => (p.1, p.2 ++ '\n' :: t) := by
  have hstop : ∀ c ∈ ('\n' :: t).head?, isPayloadChar c = false := forall_head?_cons (by decide)
  cases s with
  | nil => exact payload?_eq_none fun hc => absurd hc (by decide)
  | cons c s =>
      by_cases hopen : c = 'c' ∧ s.head? = some '"'
      · obtain ⟨rfl, hquote⟩ := hopen
        obtain ⟨r, rfl⟩ := List.head?_eq_some_iff.1 hquote
        have hdrop : (r ++ '\n' :: t).dropWhile isPayloadChar =
            r.dropWhile isPayloadChar ++ '\n' :: t := dropWhile_append_of_head? hstop
        have htake : (r ++ '\n' :: t).takeWhile isPayloadChar = r.takeWhile isPayloadChar :=
          takeWhile_append_of_head? hstop
        simp only [payload?, List.cons_append, hdrop, htake]
        cases r.dropWhile isPayloadChar with
        | nil => rfl
        | cons d u =>
            by_cases hd : d = '"'
            · rw [hd]
              rfl
            · simp [hd]
      · have hnot : c = 'c' → s.head? ≠ some '"' := fun hc hquote => hopen ⟨hc, hquote⟩
        have hnot' : c = 'c' → (s ++ '\n' :: t).head? ≠ some '"' := by
          intro hc
          cases s with
          | nil => exact fun he => absurd (Option.some.inj he) (by decide)
          | cons d s => exact hnot hc
        rw [payload?_eq_none hnot]
        exact payload?_eq_none hnot'

/-- What was passed over on earlier lines has no part in what is found. -/
theorem allFrom_append_newline_seen (seen front s : List Char) :
    allFrom (seen ++ '\n' :: front) s = allFrom seen s := by
  fun_induction payloads s generalizing seen with
  | case1 s q t hread ih =>
      have hline := (lineAround_append_newline ('"' :: 'c' :: seen) front (q ++ '"' :: t) []).1
      have hrest := ih ('"' :: (q.reverse ++ '"' :: 'c' :: seen))
      rw [List.cons_append, List.append_assoc, List.cons_append, List.cons_append] at hrest
      rw [List.cons_append, List.cons_append] at hline
      rw [allFrom_of_some hread, allFrom_of_some hread, hline, hrest]
  | case2 hread => rw [allFrom_nil, allFrom_nil]
  | case3 c s hread ih =>
      rw [allFrom_cons_of_none hread, allFrom_cons_of_none hread]
      exact ih (c :: seen)

theorem allFrom_append_newline (seen s t : List Char) :
    allFrom seen (s ++ '\n' :: t) = allFrom seen s ++ allFrom ('\n' :: (s.reverse ++ seen)) t := by
  fun_induction payloads s generalizing seen with
  | case1 s q r hread ih =>
      have hfound := payload?_append_newline s t
      rw [hread] at hfound
      have hline := (lineAround_append_newline ('"' :: 'c' :: seen) [] (q ++ '"' :: r) t).2
      rw [List.append_assoc, List.cons_append] at hline
      have hseen : s.reverse ++ seen = r.reverse ++ '"' :: (q.reverse ++ '"' :: 'c' :: seen) := by
        rw [eq_of_payload?_eq_some hread]
        simp
      rw [allFrom_of_some hfound, allFrom_of_some hread, hline, ih, hseen, List.append_assoc]
  | case2 hread =>
      have hfound := payload?_append_newline [] t
      rw [hread] at hfound
      rw [List.nil_append] at hfound ⊢
      rw [allFrom_cons_of_none hfound, allFrom_nil]
      rfl
  | case3 c s hread ih =>
      have hfound := payload?_append_newline (c :: s) t
      rw [hread] at hfound
      rw [List.cons_append] at hfound ⊢
      rw [allFrom_cons_of_none hfound, allFrom_cons_of_none hread, ih]
      simp

theorem all_append_newline (s t : List Char) : all (s ++ '\n' :: t) = all s ++ all t := by
  rw [all, allFrom_append_newline]
  exact congrArg (all s ++ ·) (allFrom_append_newline_seen [] _ t)

theorem mem_all_of_mem_line {text : List Char} (hline : line ∈ lines text) (hl : l ∈ all line) :
    l ∈ all text := by
  rw [eq_flatMap_lines all_append_newline text]
  exact List.mem_flatMap.2 ⟨line, hline, hl⟩

/-! ## The name of a literal -/

theorem name_of_mem_allFrom (hseen : '\n' ∉ seen) (hs : '\n' ∉ s) (h : l ∈ allFrom seen s) :
    l.name = (Declaration.binding? isBlank (seen.reverse ++ s)).map fun b => String.ofList b.1 := by
  fun_induction payloads s generalizing seen with
  | case1 s q t hread ih =>
      obtain rfl := eq_of_payload?_eq_some hread
      simp only [List.mem_cons, List.mem_append, not_or] at hs
      obtain ⟨-, -, hq, -, ht⟩ := hs
      have hopened : '\n' ∉ '"' :: 'c' :: seen := by simp [hseen]
      have hclosed : '\n' ∉ '"' :: (q.reverse ++ '"' :: 'c' :: seen) := by simp [hq, hseen]
      have hpayload : '\n' ∉ q ++ '"' :: t := by simp [hq, ht]
      rw [allFrom_of_some hread, List.mem_append, Option.mem_toList,
        lineAround_eq hopened hpayload] at h
      rcases h with h | h
      · unfold ofPayload? at h
        split at h
        next => cases h
        next =>
            obtain rfl := Option.some.inj h
            simp
      · rw [ih hclosed ht h]
        simp
  | case2 hread =>
      rw [allFrom_nil] at h
      cases h
  | case3 c s hread ih =>
      have hc : '\n' ∉ c :: seen := by
        rintro (_ | ⟨_, hmem⟩)
        · exact hs List.mem_cons_self
        · exact hseen hmem
      rw [allFrom_cons_of_none hread] at h
      rw [ih hc (List.not_mem_of_not_mem_cons hs) h]
      simp

/-- A literal has a name exactly if its line binds the name, and it has no other. -/
theorem name_eq_some_iff (hline : '\n' ∉ line) (hl : l ∈ all line) {n : List Char} :
    l.name = some (String.ofList n) ↔ ∃ r, Declaration.Binds isBlank line n r := by
  rw [name_of_mem_allFrom List.not_mem_nil hline hl, Option.map_eq_some_iff]
  constructor
  · rintro ⟨b, hb, hn⟩
    obtain rfl := String.ofList_inj.1 hn
    exact ⟨b.2, (Declaration.binding?_eq_some_iff Declaration.delimits_blank (by decide)).1 hb⟩
  · rintro ⟨r, hr⟩
    have hb := (Declaration.binding?_eq_some_iff Declaration.delimits_blank (by decide)).2 hr
    exact ⟨(n, r), hb, rfl⟩

/-- Literals are collected line by line. A literal on a line has a name exactly if the line binds
the name; so a literal on the line of a declaration is listed under the name that is declared. -/
theorem all_named_by_line :
    (∀ a b : List Char, all (a ++ '\n' :: b) = all a ++ all b) ∧
    (∀ line : List Char, '\n' ∉ line → ∀ l ∈ all line, ∀ n : List Char,
      l.name = some (String.ofList n) ↔ ∃ r, Declaration.Binds isBlank line n r) ∧
    ∀ text : String, ∀ line ∈ lines text.toList, ∀ g ∈ Declaration.all line,
      g ∈ (ofText text).globals ∧ ∀ l ∈ all line,
        StringConstant.ofLiteral l ∈ (ofText text).strings ∧
          (StringConstant.ofLiteral l).name = some g.name := by
  refine ⟨all_append_newline, fun line hline l hl n => name_eq_some_iff hline hl, ?_⟩
  intro text line hline g hg
  have hdeclares := (Declaration.mem_all_line_iff (not_mem_of_mem_lines hline)).1 hg
  refine ⟨Declaration.mem_all_iff.2 ⟨line, hline, hdeclares⟩, fun l hl => ⟨?_, ?_⟩⟩
  · exact List.mem_map_of_mem (mem_all_of_mem_line hline hl)
  · have hname := (name_eq_some_iff (not_mem_of_mem_lines hline) hl).2 hdeclares.binds
    rwa [String.ofList_toList] at hname

/-- An empty literal has no entry; the other two on its line have the name that is declared. -/
theorem all_named_by_line_several :
    let line := "\t@s.1 =\tconstant [9 x i8] c\"hé\", c\"\", c\"x\"".toList
    let text := "; c\"è\"\n\t@s.1 =\tconstant [9 x i8] c\"hé\", c\"\", c\"x\""
    let g : Global := ⟨"s.1", .constant, "[9 x i8] c\"hé\", c\"\", c\"x\""⟩
    ('\n' ∉ line ∧ line ∈ lines text.toList ∧ g ∈ Declaration.all line ∧
      all line = [⟨some "s.1", "hé"⟩, ⟨some "s.1", "x"⟩]) ∧
    (∃ r, Declaration.Binds isBlank line "s.1".toList r) ∧ g ∈ (ofText text).globals ∧
      StringConstant.ofLiteral ⟨some "s.1", "x"⟩ ∈ (ofText text).strings := by
  intro line text g
  have hline : '\n' ∉ line := by decide +kernel
  have hmem : line ∈ lines text.toList := by decide +kernel
  have hg : g ∈ Declaration.all line := by decide +kernel
  have hall : all line = [⟨some "s.1", "hé"⟩, ⟨some "s.1", "x"⟩] := by decide +kernel
  have hfirst : ⟨some "s.1", "hé"⟩ ∈ all line := hall ▸ List.mem_cons_self
  have hlast : ⟨some "s.1", "x"⟩ ∈ all line := hall ▸ List.mem_cons_of_mem _ List.mem_cons_self
  obtain ⟨hglobals, hstrings⟩ := all_named_by_line.2.2 text line hmem g hg
  have hbinds := (all_named_by_line.2.1 line hline _ hfirst "s.1".toList).1 (by simp)
  exact ⟨⟨hline, hmem, hg, hall⟩, hbinds, hglobals, (hstrings _ hlast).1⟩

end IrSurvey.Listing.Literal
