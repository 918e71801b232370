import IrSurvey.Proofs.Text.Digit
import IrSurvey.Proofs.Text.Join
import IrSurvey.Text.Line

/-!
Cutting a text into lines and joining lines undo each other. The two ways to cut differ in carriage
returns and in an empty last line. A string on one line has no newline.
-/
namespace IrSurvey.Text

variable {s t l : List Char} {ls : List (List Char)}

/-- The text starts at the end of a line. -/
def AtLineEnd (s : List Char) : Prop :=
  ∀ c ∈ s.head?, c = '\n'

theorem atLineEnd_iff : AtLineEnd s ↔ s = [] ∨ ∃ t, s = '\n' :: t := by
  cases s with
  | nil => simp [AtLineEnd]
  | cons c s => simp [AtLineEnd]

theorem AtLineEnd.of_prefix (ht : AtLineEnd t) (hs : s <+: t) : AtLineEnd s := by
  intro c hc
  obtain ⟨r, rfl⟩ := hs
  exact ht c (by rw [List.head?_append, Option.mem_def.1 hc]; rfl)

theorem lines_eq_singleton (h : '\n' ∉ s) : lines s = [s] :=
  List.splitOn_eq_singleton h

theorem lines_append_newline (s t : List Char) : lines (s ++ '\n' :: t) = lines s ++ lines t := by
  simp only [lines, List.splitOn_eq_splitOnP]
  exact List.splitOnP_append_cons s t (beq_self_eq_true '\n')

theorem not_mem_of_mem_splitOn {a : Char} (h : l ∈ s.splitOn a) : a ∉ l := by
  rw [List.splitOn_eq_splitOnP] at h
  induction s generalizing l with
  | nil =>
      rw [List.splitOnP_nil, List.mem_singleton] at h
      simp [h]
  | cons c s ih =>
      rw [List.splitOnP_cons_eq_if_modifyHead] at h
      split at h
      next =>
          rcases List.mem_cons.1 h with rfl | h
          · exact List.not_mem_nil
          · exact ih h
      next hc =>
          cases hs : s.splitOnP (· == a) with
          | nil => simp [hs] at h
          | cons m ms =>
              rw [hs, List.modifyHead_cons, List.mem_cons] at h
              rcases h with rfl | h
              · have hm : a ∉ m := ih (hs ▸ List.mem_cons_self)
                rw [beq_iff_eq] at hc
                exact List.not_mem_cons_of_ne_of_not_mem (Ne.symm hc) hm
              · exact ih (hs ▸ List.mem_cons_of_mem m h)

/-- There is one more piece than there are cuts. -/
theorem length_splitOn (a : Char) (s : List Char) : (s.splitOn a).length = s.count a + 1 := by
  rw [List.splitOn_eq_splitOnP]
  induction s with
  | nil => rfl
  | cons c s ih =>
      rw [List.splitOnP_cons_eq_if_modifyHead, List.count_cons]
      split
      next => rw [List.length_cons, ih]
      next => rw [List.length_modifyHead, ih, Nat.add_zero]

theorem not_mem_of_mem_lines (h : l ∈ lines s) : '\n' ∉ l :=
  not_mem_of_mem_splitOn h

theorem unlines_lines (s : List Char) : unlines (lines s) = s :=
  List.intercalate_splitOn '\n'

/-- Each line behind the first has a newline in front. -/
theorem unlines_cons (l : List Char) (ls : List (List Char)) :
    unlines (l :: ls) = l ++ ls.flatMap ('\n' :: ·) :=
  intercalate_cons_eq ['\n'] l ls

theorem unlines_append (hne : ls ≠ []) (ms : List (List Char)) :
    unlines (ls ++ ms) = unlines ls ++ ms.flatMap ('\n' :: ·) := by
  obtain ⟨l, ls, rfl⟩ := List.exists_cons_of_ne_nil hne
  rw [List.cons_append, unlines_cons, unlines_cons, List.flatMap_append, List.append_assoc]

/-- Lines of texts that are joined by newlines are the lines of each. -/
theorem lines_unlines_flatMap (hne : ls ≠ []) : lines (unlines ls) = ls.flatMap lines := by
  induction ls with
  | nil => exact absurd rfl hne
  | cons l ls ih =>
      cases ls with
      | nil => rw [unlines, List.intercalate_singleton, List.flatMap_singleton]
      | cons m ls =>
          have hm := ih (List.cons_ne_nil m ls)
          rw [unlines] at hm
          rw [unlines, List.intercalate_cons_cons, List.append_assoc, List.singleton_append,
            lines_append_newline, hm]
          exact List.flatMap_cons.symm

/-- What is found anew behind every newline is found line by line. -/
theorem eq_flatMap_lines {β : Type} {f : List Char → List β}
    (h : ∀ s t, f (s ++ '\n' :: t) = f s ++ f t) (s : List Char) : f s = (lines s).flatMap f := by
  have hjoin : ∀ ls : List (List Char), ls ≠ [] → f (unlines ls) = ls.flatMap f := by
    intro ls hne
    induction ls with
    | nil => exact absurd rfl hne
    | cons l ls ih =>
        cases ls with
        | nil => rw [unlines, List.intercalate_singleton, List.flatMap_singleton]
        | cons m ls =>
            have hunlines : unlines (l :: m :: ls) = l ++ '\n' :: unlines (m :: ls) := by
              simp [unlines, List.intercalate_cons_cons]
            rw [hunlines, h, ih (List.cons_ne_nil m ls)]
            exact List.flatMap_cons.symm
  conv_lhs => rw [← unlines_lines s]
  exact hjoin _ (List.splitOn_ne_nil '\n' s)

/-- A word without a newline is not continued behind one. -/
theorem isPrefixOf?_append_newline {w : List Char} (hw : '\n' ∉ w) (s t : List Char) :
    w.isPrefixOf? (s ++ '\n' :: t) = (w.isPrefixOf? s).map (· ++ '\n' :: t) := by
  induction w generalizing s with
  | nil => rfl
  | cons c w ih =>
      have hc : c ≠ '\n' := fun he => hw (he ▸ List.mem_cons_self)
      have hw' : '\n' ∉ w := fun hmem => hw (List.mem_cons_of_mem c hmem)
      cases s with
      | nil =>
          have hne : (c == '\n') = false := beq_false_of_ne hc
          show (if c == '\n' then w.isPrefixOf? t else none) = none
          rw [hne]
          rfl
      | cons d s =>
          show (if c == d then w.isPrefixOf? (s ++ '\n' :: t) else none) =
            (if c == d then w.isPrefixOf? s else none).map (· ++ '\n' :: t)
          split
          · exact ih hw' s
          · rfl

/-- What passes over empty lines and carriage returns is the same for both ways of cutting. -/
theorem flatMap_endedLines {β : Type} {f : List Char → List β} (hnil : f [] = [])
    (hreturn : ∀ l, f (dropReturn l) = f l) (s : List Char) :
    (endedLines s).flatMap f = (lines s).flatMap f := by
  have hne : lines s ≠ [] := List.splitOn_ne_nil '\n' s
  have hcut : lines s = (lines s).dropLast ++ [(lines s).getLast?.getD []] := by
    rw [List.getLast?_eq_some_getLast hne, Option.getD_some, List.dropLast_concat_getLast hne]
  have hlast : (if (lines s).getLast?.getD [] = [] then []
      else [(lines s).getLast?.getD []]).flatMap f = f ((lines s).getLast?.getD []) := by
    split
    next h => rw [h, hnil, List.flatMap_nil]
    next => exact List.flatMap_singleton f _
  calc (endedLines s).flatMap f
      = ((lines s).dropLast.map dropReturn).flatMap f ++ f ((lines s).getLast?.getD []) := by
        rw [endedLines, List.flatMap_append, hlast]
    _ = (lines s).dropLast.flatMap f ++ f ((lines s).getLast?.getD []) := by
        simp only [List.flatMap_map, hreturn]
    _ = ((lines s).dropLast ++ [(lines s).getLast?.getD []]).flatMap f := by
        rw [List.flatMap_append, List.flatMap_singleton]
    _ = (lines s).flatMap f := by rw [← hcut]

/-! ## Strings on one line -/

/-- A string without a newline. -/
def OneLine (a : String) : Prop :=
  '\n' ∉ a.toList

instance (a : String) : Decidable (OneLine a) :=
  inferInstanceAs (Decidable ('\n' ∉ a.toList))

variable {a b : String} {as : List String}

@[simp] theorem oneLine_append : OneLine (a ++ b) ↔ OneLine a ∧ OneLine b := by
  simp [OneLine]

@[simp] theorem oneLine_ofList : OneLine (String.ofList s) ↔ '\n' ∉ s := by
  simp [OneLine]

theorem oneLine_toString (n : Nat) : OneLine (toString n) := by
  intro h
  exact absurd (isDigit_of_mem_toString h) (by decide)

theorem oneLine_intercalate (ha : OneLine a) (has : ∀ b ∈ as, OneLine b) :
    OneLine (a.intercalate as) := by
  intro h
  rw [String.toList_intercalate] at h
  rcases mem_intercalate h with h | ⟨l, hl, h⟩
  · exact ha h
  · obtain ⟨b, hb, rfl⟩ := List.mem_map.1 hl
    exact has b hb h

theorem lines_intercalate (hne : as ≠ []) :
    lines ("\n".intercalate as).toList = as.flatMap fun a => lines a.toList := by
  have hmap : as.map String.toList ≠ [] := by simpa using hne
  rw [String.toList_intercalate, ← List.flatMap_map]
  exact lines_unlines_flatMap hmap

theorem lines_toList (h : OneLine a) : lines a.toList = [a.toList] :=
  lines_eq_singleton h

theorem flatMap_lines (h : ∀ a ∈ as, OneLine a) :
    (as.flatMap fun a => lines a.toList) = as.map String.toList := by
  induction as with
  | nil => rfl
  | cons a as ih =>
      rw [List.flatMap_cons, lines_toList (h a List.mem_cons_self),
        ih fun b hb => h b (List.mem_cons_of_mem a hb)]
      rfl

end IrSurvey.Text
