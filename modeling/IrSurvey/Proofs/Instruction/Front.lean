import IrSurvey.Proofs.Instruction.Parts

/-!
What stands in front of the opcode. The name that receives the result, the words that mark a call
site and the blanks around the line leave no trace in what is shown; the marks are taken off one by
one, and there are at most a quarter as many as the line has characters.
-/
namespace IrSurvey.Instruction
open Text
open Listing.Parameter (IsLocal)

/-- A word that marks a call site, and the blanks behind it. -/
structure CallMark where
  word : List Char
  gap : List Char
  isCallMarker_word : isCallMarker word = true := by decide
  gap_ne_nil : gap ≠ [] := by decide
  allBlank_gap : AllBlank gap := by decide

def CallMark.text (m : CallMark) : List Char :=
  m.word ++ m.gap

/-- Behind the blanks in front, the text assigns to a local value. -/
def StartsAssigned (s : List Char) : Prop :=
  ∃ name gap r, IsLocal name ∧ AllBlank gap ∧ trimStart s = '%' :: (name ++ (gap ++ '=' :: r))

/-- A run of the loop that takes the marks off a text, with the number of its turns. -/
inductive MarkRun : List Char → Nat → Instruction → Prop
  | stop {s : List Char} : isCallMarker (firstWord s).1 = false →
      MarkRun s 0 { opcode := (firstWord s).1, operands := (firstWord s).2 }
  | turn {s : List Char} {n : Nat} {i : Instruction} : isCallMarker (firstWord s).1 = true →
      MarkRun (firstWord s).2 n i → MarkRun s (n + 1) i

variable {s t u v w x : List Char} {m : CallMark} {n : Nat} {i : Instruction}

/-! ## Marks -/

theorem isCallMarker_spelling (h : isCallMarker w = true) :
    4 ≤ w.length ∧ NoBlank w ∧ w.head? ≠ some '%' := by
  simp only [isCallMarker, Bool.or_eq_true, decide_eq_true_eq] at h
  rcases h with (rfl | rfl) | rfl <;> decide

theorem CallMark.word_ne_nil (m : CallMark) : m.word ≠ [] := by
  intro he
  have hlen := (isCallMarker_spelling m.isCallMarker_word).1
  rw [he] at hlen
  exact absurd hlen (by decide)

theorem CallMark.firstWord_trim_text_append (m : CallMark) (s : List Char) :
    firstWord (trim (m.text ++ s)) = (m.word, trim s) := by
  obtain ⟨c, gap, hgap⟩ := List.exists_cons_of_ne_nil m.gap_ne_nil
  have hblank : AllBlank (c :: gap) := hgap ▸ m.allBlank_gap
  have hrest : AllBlank gap := fun a ha => hblank a (List.mem_cons_of_mem c ha)
  have happ : m.text ++ s = m.word ++ c :: (gap ++ s) := by
    rw [CallMark.text, hgap, List.append_assoc, List.cons_append]
  rw [firstWord_trim, happ, firstWord_append_cons m.word_ne_nil
    (isCallMarker_spelling m.isCallMarker_word).2.1 (hblank c List.mem_cons_self),
    trimStart_append hrest]
  rfl

theorem CallMark.ofCode_trim_text_append (m : CallMark) (s : List Char) :
    ofCode (trim (m.text ++ s)) = ofCode (trim s) := by
  have hword := m.firstWord_trim_text_append s
  rw [ofCode_marker (by rw [hword]; exact m.isCallMarker_word), hword]

/-- Any number of marks in front of a text is passed over. -/
theorem ofCode_trim_marks_append (ms : List CallMark) (s : List Char) :
    ofCode (trim (ms.flatMap CallMark.text ++ s)) = ofCode (trim s) := by
  induction ms with
  | nil => rfl
  | cons m ms ih =>
      rw [List.flatMap_cons, List.append_assoc, m.ofCode_trim_text_append]
      exact ih

theorem CallMark.head?_trim_text_append (m : CallMark) (s : List Char) :
    (trim (m.text ++ s)).head? ≠ some '%' := by
  obtain ⟨-, hsolid, hhead⟩ := isCallMarker_spelling m.isCallMarker_word
  have hword : m.text ++ s = m.word ++ (m.gap ++ s) := List.append_assoc _ _ _
  have hfront : FrontSolid (m.word ++ (m.gap ++ s)) :=
    (frontSolid_append m.word_ne_nil).2 hsolid.frontSolid
  rw [hword, head?_trim hfront, List.head?_append_of_ne_nil _ m.word_ne_nil]
  exact hhead

/-! ## The assignment -/

theorem stripTemporary_of_not_startsAssigned (h : ¬ StartsAssigned s) :
    stripTemporary s = trim s := by
  by_cases hhead : (trim s).head? = some '%'
  · obtain ⟨v, hv⟩ : ∃ v, trim s = '%' :: v := List.head?_eq_some_iff.1 hhead
    rw [stripTemporary_percent hv]
    cases hread : named? isLocalChar isBlank '=' v with
    | none => rfl
    | some q =>
        obtain ⟨hname, gap, hgap, hrest⟩ :=
          (named?_eq_some_iff delimits_sign).1 (show _ = some (q.1, q.2) from hread)
        obtain ⟨b, -, hb⟩ := exists_blank_trimEnd (trimStart s)
        refine absurd ⟨q.1, gap, q.2 ++ b, hname, hgap, ?_⟩ h
        calc trimStart s = trim s ++ b := hb
          _ = '%' :: (q.1 ++ (gap ++ '=' :: (q.2 ++ b))) := by
            rw [hv, hrest]
            simp
  · exact stripTemporary_eq_trim hhead

theorem ofLine_of_not_startsAssigned (h : ¬ StartsAssigned s) : ofLine s = ofCode (trim s) := by
  rw [ofLine, stripTemporary_of_not_startsAssigned h]

/-- Marks in front of a line that assigns nothing leave its instruction as it is. -/
theorem ofLine_marks_append (h : ¬ StartsAssigned s) (ms : List CallMark) :
    ofLine (ms.flatMap CallMark.text ++ s) = ofCode (trim s) := by
  cases ms with
  | nil => exact ofLine_of_not_startsAssigned h
  | cons m ms =>
      have hhead := m.head?_trim_text_append (ms.flatMap CallMark.text ++ s)
      rw [← List.append_assoc, ← List.flatMap_cons] at hhead
      rw [ofLine, stripTemporary_eq_trim hhead]
      exact ofCode_trim_marks_append (m :: ms) s

theorem ofLine_assignment (hu : AllBlank u) (ht : IsLocal t) (hv : AllBlank v) (s : List Char) :
    ofLine (u ++ '%' :: (t ++ (v ++ '=' :: s))) = ofCode (trim s) := by
  rw [ofLine, stripTemporary_assignment hu ht hv]

/-! ## The loop -/

/-- Each turn takes a mark of four letters at least. -/
theorem MarkRun.le_length (h : MarkRun s n i) : 4 * n ≤ s.length := by
  induction h with
  | stop => exact Nat.zero_le _
  | @turn s n i hword _ ih =>
      have hmark := (isCallMarker_spelling hword).1
      obtain ⟨g, b, -, -, hs⟩ := exists_blank_firstWord s
      have hlen := congrArg List.length hs
      simp only [List.length_append] at hlen
      omega

theorem exists_markRun (s : List Char) : ∃ n, MarkRun s n (ofCode s) := by
  fun_induction ofCode s with
  | case1 s hword ih =>
      obtain ⟨n, hn⟩ := ih
      exact ⟨n + 1, .turn hword hn⟩
  | case2 s hword => exact ⟨0, .stop (Bool.eq_false_iff.2 hword)⟩

theorem length_stripTemporary_le (s : List Char) : (stripTemporary s).length ≤ s.length := by
  obtain ⟨p, -, htrim⟩ := exists_lead_stripTemporary s
  obtain ⟨a, b, -, -, hs⟩ := exists_blank_trim s
  have hlen := congrArg List.length hs
  rw [htrim] at hlen
  simp only [List.length_append] at hlen
  omega

/-! ## What is shown -/

/-- An assignment to a local value, marks of a call site and blanks around a line have no part in
what is shown for it; and on every line the marks come to an end, and what follows them is its
instruction. -/
theorem lowerLine_assignment_marks :
    (∀ (u t v w s x : List Char) (ms : List CallMark), AllBlank u → IsLocal t → AllBlank v →
      AllBlank w → AllBlank x → ¬ StartsAssigned s →
        let marked := ms.flatMap CallMark.text ++ s
        lowerLine (String.ofList (u ++ '%' :: (t ++ (v ++ '=' :: (w ++ (marked ++ x)))))) =
            lowerLine (String.ofList marked) ∧
          lowerLine (String.ofList marked) = lowerLine (String.ofList s)) ∧
    ∀ line : List Char,
      ∃ n, 4 * n ≤ line.length ∧ MarkRun (stripTemporary line) n (ofLine line) := by
  refine ⟨?_, ?_⟩
  · intro u t v w s x ms hu ht hv hw hx hs
    have hmarks := ofLine_marks_append hs ms
    have hassigned : ofLine (u ++ '%' :: (t ++ (v ++ '=' ::
        (w ++ (ms.flatMap CallMark.text ++ s ++ x))))) = ofCode (trim s) := by
      rw [ofLine_assignment hu ht hv, trim_blank_append hw, trim_append _ hx,
        ofCode_trim_marks_append]
    simp only [lowerLine, String.toList_ofList, hassigned, hmarks, ofLine_of_not_startsAssigned hs,
      and_self]
  · intro line
    obtain ⟨n, hn⟩ := exists_markRun (stripTemporary line)
    exact ⟨n, hn.le_length.trans (length_stripTemporary_le line), hn⟩

/-- Blanks of several kinds, a name with a hyphen and a mark that is written twice. -/
theorem lowerLine_assignment_marks_twice :
    let s := "call i32 @f(i32 %x) ".toList
    (AllBlank "\u00A0\t".toList ∧ IsLocal "r-1.$".toList ∧ AllBlank [] ∧ AllBlank "\u2003".toList ∧
        AllBlank "\r\n".toList ∧ ¬ StartsAssigned s) ∧
      lowerLine "\u00A0\t%r-1.$=\u2003tail notail\ttail  call i32 @f(i32 %x) \r\n" =
          lowerLine "tail notail\ttail  call i32 @f(i32 %x) " ∧
        lowerLine "tail notail\ttail  call i32 @f(i32 %x) " = lowerLine "call i32 @f(i32 %x) " := by
  intro s
  have hu : AllBlank "\u00A0\t".toList := by decide
  have ht : IsLocal "r-1.$".toList := by decide
  have hv : AllBlank [] := by decide
  have hw : AllBlank "\u2003".toList := by decide
  have hx : AllBlank "\r\n".toList := by decide
  have hs : ¬ StartsAssigned s := by
    rintro ⟨name, gap, r, -, -, he⟩
    exact absurd (congrArg List.head? he) (by decide : (trimStart s).head? ≠ some '%')
  let ms : List CallMark := [{ word := "tail".toList, gap := [' '] },
    { word := "notail".toList, gap := ['\t'] }, { word := "tail".toList, gap := [' ', ' '] }]
  have hshown := lowerLine_assignment_marks.1 _ _ _ _ s _ ms hu ht hv hw hx hs
  refine ⟨⟨hu, ht, hv, hw, hx, hs⟩, ?_⟩
  exact hshown

end IrSurvey.Instruction
