import IrSurvey.Listing.Assembly
import IrSurvey.Proofs.Listing.Body
import IrSurvey.Proofs.Listing.Definition

/-!
Comment lines. Only bodies know comments; headers, parameter lists and braces are sought in the text
as it stands. So a comment line can be taken out as long as no header runs across an edge of it, and
a header that does can change.
-/
namespace IrSurvey.Listing
open Text

/-! ## Where headers end -/

namespace Header

/-- The text behind a header: behind the list of its parameters, if that closes. -/
def remainder (h : Header) : List Char :=
  (splitClose? '(' ')' h.rest).elim h.rest Prod.snd

/-- A header that starts before a place of the text ends behind it. -/
def Straddles (s : List Char) (n : Nat) : Prop :=
  ∃ m < n, ∃ h ∈ read? (s.drop m), n + h.remainder.length < s.length

instance (s : List Char) (n : Nat) : Decidable (Straddles s n) :=
  inferInstanceAs (Decidable (∃ m < n, ∃ h ∈ read? (s.drop m), n + h.remainder.length < s.length))

/-- No header that starts in the front of a text ends in the back of it. -/
def Apart (front back : List Char) : Prop :=
  ∀ a b, front = a ++ b → b ≠ [] → ∀ h ∈ read? (b ++ back), back.length ≤ h.remainder.length

variable {s t u : List Char} {h : Header}

theorem apart_of_not_straddles (hs : ¬ Straddles (s ++ t) s.length) : Apart s t := by
  rintro a b rfl hb h hread
  by_contra hlen
  have hpos := List.length_pos_iff.2 hb
  refine hs ⟨a.length, by simp only [List.length_append]; omega, h, ?_, ?_⟩
  · rwa [List.append_assoc, List.drop_left]
  · simp only [List.length_append]
    omega

theorem Apart.of_append (hs : Apart (u ++ s) t) : Apart s t :=
  fun a b he hb h hread => hs (u ++ a) b (by rw [he, List.append_assoc]) hb h hread

theorem length_remainder_le (h : Header) : h.remainder.length ≤ h.rest.length := by
  unfold remainder
  cases hs : splitClose? '(' ')' h.rest with
  | none => exact Nat.le_refl _
  | some q =>
      obtain ⟨hrest, -⟩ := (splitClose?_eq_some_iff (by decide)).1 (show _ = some (q.1, q.2) from hs)
      simp only [Option.elim_some, hrest, List.length_append, List.length_cons]
      omega

/-- A header of the front is read there, its parameters with it, whatever the back is. -/
theorem Apart.exists_read? (hst : Apart s t) (hs : s ≠ []) (hread : read? (s ++ t) = some h) :
    ∃ w r, w ≠ [] ∧ s = w ++ r ∧ h.rest = r ++ t ∧
      (∀ u, read? (s ++ u) = some { h with rest := r ++ u }) ∧
      splitClose? '(' ')' (r ++ t) = (splitClose? '(' ')' r).map fun q => (q.1, q.2 ++ t) := by
  have hlen : t.length ≤ h.remainder.length := hst [] s rfl hs h hread
  obtain ⟨w, hw, hsplit, hlocal⟩ := exists_read?_append hread
  obtain ⟨r, hr⟩ : t <:+ h.rest := List.suffix_of_suffix_length_le ⟨s, rfl⟩ ⟨w, hsplit.symm⟩
    (hlen.trans (length_remainder_le h))
  have hfront : s = w ++ r := by
    apply (List.append_left_inj t).1
    rw [hsplit, List.append_assoc, hr]
  refine ⟨w, r, hw, hfront, hr.symm, fun u => ?_, splitClose?_append (by decide) ?_⟩
  · rw [hfront, List.append_assoc]
    exact hlocal (r ++ u)
  · intro p q hq
    rw [hr] at hq
    simpa only [remainder, hq, Option.elim_some] using hlen

end Header

namespace Definition

variable {h : Header} {s t c : List Char}

/-! ## Bodies -/

/-- The parameters, and the text behind the brace that opens the body. -/
def opened? (s : List Char) : Option (List Char × List Char) :=
  match splitClose? '(' ')' s with
  | none => none
  | some (params, rest) =>
    match rest.dropWhile (fun c => c ≠ '{' && c ≠ '\n') with
    | '{' :: text => some (params, text)
    | _ => none

/-- A body ends at its brace, or with the text. -/
def bodyOf (text : List Char) : List Char :=
  (splitClose? '{' '}' text).elim text Prod.fst

theorem ofHeader?_eq_map (h : Header) :
    ofHeader? h = (opened? h.rest).map fun q =>
      { name := String.ofList h.name
        returnType := String.ofList h.returnType
        params := String.ofList (trim q.1)
        body := String.ofList (bodyOf q.2)
        closed := (splitClose? '{' '}' q.2).isSome } := by
  unfold ofHeader? opened?
  cases splitClose? '(' ')' h.rest with
  | none => rfl
  | some q =>
      dsimp only
      generalize q.2.dropWhile (fun c => c ≠ '{' && c ≠ '\n') = tail
      split
      next => rfl
      next => simp only [Option.map_none]

/-- The function of a header depends on the text behind it only through the items of the body. -/
theorem map_ofDefinition_ofHeader? (h : Header) :
    (ofHeader? h).map Function.ofDefinition = (opened? h.rest).map fun q =>
      { name := String.ofList h.name
        returnType := String.ofList h.returnType
        parameters := Parameter.all (trim q.1)
        instructions := Body.instructions (Body.items (bodyOf q.2))
        labels := Body.labels 0 (Body.items (bodyOf q.2)) } := by
  rw [ofHeader?_eq_map, Option.map_map]
  congr 1
  funext q
  simp only [Function.comp_apply, Function.ofDefinition, String.toList_ofList]

/-- Where the body opens does not depend on a text that starts at the end of a line. -/
theorem opened?_append (ht : AtLineEnd t)
    (hclose : splitClose? '(' ')' (s ++ t) =
      (splitClose? '(' ')' s).map fun q => (q.1, q.2 ++ t)) :
    opened? (s ++ t) = (opened? s).map fun q => (q.1, q.2 ++ t) := by
  have hstop : ∀ c ∈ t.head?, (c ≠ '{' && c ≠ '\n') = false := by
    intro c hc
    rw [ht c hc]
    decide
  unfold opened?
  rw [hclose]
  cases splitClose? '(' ')' s with
  | none => rfl
  | some q =>
      simp only [Option.map_some, dropWhile_append_of_head? hstop]
      cases hd : q.2.dropWhile (fun c => c ≠ '{' && c ≠ '\n') with
      | nil =>
          rcases atLineEnd_iff.1 ht with rfl | ⟨t, rfl⟩
          · rfl
          · rfl
      | cons c text =>
          by_cases hc : c = '{'
          · subst hc
            rfl
          · simp [hc]

/-- A stretch without braces stands in the body as a whole, or not at all. -/
theorem bodyOf_insert (hc : '{' ∉ c ∧ '}' ∉ c) (s t : List Char) :
    bodyOf (s ++ c ++ t) = bodyOf (s ++ t) ∨
      ∃ u, u <+: t ∧ bodyOf (s ++ c ++ t) = s ++ c ++ u ∧ bodyOf (s ++ t) = s ++ u := by
  have hne : '{' ≠ '}' := by decide
  unfold bodyOf
  cases hs : splitClose? '{' '}' s with
  | some q =>
      left
      rw [List.append_assoc, splitClose?_append_of_eq_some hne hs,
        splitClose?_append_of_eq_some hne hs]
      rfl
  | none =>
      right
      cases hst : splitClose? '{' '}' (s ++ t) with
      | none =>
          have hopen : StaysOpen '{' '}' 0 (s ++ c ++ t) :=
            ((splitClose?_eq_none_iff hne).1 hst).insert hc.1 hc.2
          rw [(splitClose?_eq_none_iff hne).2 hopen]
          exact ⟨t, List.prefix_rfl, rfl, rfl⟩
      | some q =>
          obtain ⟨heq, hq⟩ := (splitClose?_eq_some_iff hne).1 (show _ = some (q.1, q.2) from hst)
          -- the brace that closes stands in the back, since none does in the front
          rcases Nat.lt_or_ge q.1.length s.length with hlt | hle
          · obtain ⟨r, rfl⟩ : q.1 ++ ['}'] <+: s :=
              List.prefix_of_prefix_length_le ⟨q.2, by simp [heq]⟩ ⟨t, rfl⟩
                (by simpa using Nat.succ_le_of_lt hlt)
            rw [(splitClose?_eq_some_iff hne).2 ⟨(List.append_cons q.1 '}' r).symm, hq⟩] at hs
            cases hs
          · obtain ⟨u, hu⟩ : s <+: q.1 :=
              List.prefix_of_prefix_length_le ⟨t, rfl⟩ ⟨'}' :: q.2, heq.symm⟩ hle
            rw [← hu] at heq hq
            rw [List.append_assoc, List.append_cancel_left_eq] at heq
            have hclose : splitClose? '{' '}' (s ++ c ++ t) = some (s ++ c ++ u, q.2) :=
              (splitClose?_eq_some_iff hne).2 ⟨by simp [heq], hq.insert hc.1 hc.2⟩
            exact ⟨u, ⟨_, heq.symm⟩, by rw [hclose]; rfl, hu.symm⟩

theorem items_bodyOf_delete (hc : '{' ∉ c ∧ '}' ∉ c) (hline : '\n' ∉ c)
    (hitem : Body.item? c = none) (s : List Char) (ht : AtLineEnd t) :
    Body.items (bodyOf (s ++ '\n' :: (c ++ t))) = Body.items (bodyOf (s ++ t)) := by
  have hbrace : '{' ∉ '\n' :: c ∧ '}' ∉ '\n' :: c := by simpa using hc
  have happ : s ++ '\n' :: (c ++ t) = s ++ ('\n' :: c) ++ t := by simp
  rw [happ]
  rcases bodyOf_insert hbrace s t with h | ⟨u, hu, hlong, hshort⟩
  · rw [h]
  · rw [hlong, hshort, ← Body.items_delete hline hitem s (ht.of_prefix hu)]
    simp

/-! ## Taking a line out -/

theorem opened?_eq_none (hs : '{' ∉ s) : opened? s = none := by
  unfold opened?
  split
  next => rfl
  next params rest hclose =>
      obtain ⟨rfl, -⟩ := (splitClose?_eq_some_iff (by decide)).1 hclose
      split
      next text hd =>
          have hmem : '{' ∈ rest := (List.dropWhile_sublist _).subset (hd ▸ List.mem_cons_self)
          exact absurd (List.mem_append_right _ (List.mem_cons_of_mem _ hmem)) hs
      next => rfl

/-- No definition comes from headers in a stretch of a line without braces. -/
theorem all_append_of_no_brace (hc : '{' ∉ c) (ht : AtLineEnd t) (hct : Header.Apart c t) :
    all (c ++ t) = all t := by
  induction hlen : c.length using Nat.strong_induction_on generalizing c with
  | _ n ih =>
      subst hlen
      cases c with
      | nil => rfl
      | cons a c =>
          cases hread : Header.read? (a :: c ++ t) with
          | none =>
              have hrest : '{' ∉ c := fun h => hc (List.mem_cons_of_mem a h)
              rw [List.cons_append] at hread ⊢
              rw [all_cons_of_read?_eq_none hread]
              exact ih c.length (Nat.lt_succ_self _) hrest (hct.of_append (u := [a])) rfl
          | some h =>
              obtain ⟨w, r, hw, hsplit, hrest, -, hclose⟩ :=
                hct.exists_read? (List.cons_ne_nil a c) hread
              have hr : '{' ∉ r := fun h => hc (hsplit ▸ List.mem_append_right w h)
              have hlt : r.length < (a :: c).length := by
                have := List.length_pos_iff.2 hw
                rw [hsplit, List.length_append]
                omega
              have hnone : ofHeader? h = none := by
                rw [ofHeader?_eq_map, hrest, opened?_append ht hclose, opened?_eq_none hr]
                rfl
              rw [all_of_read?_eq_some hread, hnone, hrest]
              exact ih r.length hlt hr (Header.Apart.of_append (u := w) (hsplit ▸ hct)) rfl

theorem read?_newline (s : List Char) : Header.read? ('\n' :: s) = none := rfl

/-- A line without an item and without braces can be taken out, if no header runs across an edge of
it or comes to run across the place where it stood. -/
theorem map_ofDefinition_all_delete (hc : '{' ∉ c ∧ '}' ∉ c) (hline : '\n' ∉ c)
    (hitem : Body.item? c = none) (ht : AtLineEnd t)
    (hfront : Header.Apart s ('\n' :: (c ++ t))) (hback : Header.Apart c t)
    (hjoint : Header.Apart s t) :
    (all (s ++ '\n' :: (c ++ t))).map Function.ofDefinition =
      (all (s ++ t)).map Function.ofDefinition := by
  induction hlen : s.length using Nat.strong_induction_on generalizing s with
  | _ n ih =>
      subst hlen
      cases s with
      | nil =>
          rw [List.nil_append, all_cons_of_read?_eq_none (read?_newline _),
            all_append_of_no_brace hc.1 ht hback, List.nil_append]
      | cons a s =>
          have hne : a :: s ≠ [] := List.cons_ne_nil a s
          cases hread : Header.read? (a :: s ++ '\n' :: (c ++ t)) with
          | none =>
              have hread' : Header.read? (a :: s ++ t) = none := by
                rw [Option.eq_none_iff_forall_ne_some]
                intro h hsome
                obtain ⟨w, r, -, -, -, hlocal, -⟩ := hjoint.exists_read? hne hsome
                rw [hlocal] at hread
                cases hread
              rw [List.cons_append] at hread hread' ⊢
              rw [List.cons_append, all_cons_of_read?_eq_none hread,
                all_cons_of_read?_eq_none hread']
              exact ih s.length (Nat.lt_succ_self _) (hfront.of_append (u := [a]))
                (hjoint.of_append (u := [a])) rfl
          | some h =>
              obtain ⟨w, r, hw, hsplit, hrest, hlocal, hclose⟩ := hfront.exists_read? hne hread
              obtain ⟨w', r', -, -, hrest', -, hclose'⟩ := hjoint.exists_read? hne (hlocal t)
              obtain rfl : r = r' := List.append_cancel_right hrest'
              have hlt : r.length < (a :: s).length := by
                have := List.length_pos_iff.2 hw
                rw [hsplit, List.length_append]
                omega
              have hhead : (ofHeader? h).map Function.ofDefinition =
                  (ofHeader? { h with rest := r ++ t }).map Function.ofDefinition := by
                rw [map_ofDefinition_ofHeader?, map_ofDefinition_ofHeader?, hrest,
                  opened?_append (by simp [AtLineEnd]) hclose, opened?_append ht hclose',
                  Option.map_map, Option.map_map]
                congr 1
                funext q
                simp only [Function.comp_apply, items_bodyOf_delete hc hline hitem q.2 ht]
              rw [all_of_read?_eq_some hread, all_of_read?_eq_some (hlocal t), List.map_append,
                List.map_append, ← Option.toList_map, ← Option.toList_map, hhead, hrest]
              exact congrArg _ (ih r.length hlt (Header.Apart.of_append (u := w) (hsplit ▸ hfront))
                (Header.Apart.of_append (u := w) (hsplit ▸ hjoint)) rfl)

end Definition

/-- The functions of a text depend on its definitions only through what these make. -/
theorem functionsOf_congr {ds es : List Definition}
    (h : ds.map Function.ofDefinition = es.map Function.ofDefinition) :
    functionsOf ds = functionsOf es := by
  have hfilter : ∀ ds : List Definition,
      (ds.filter (!isReserved ·.name)).map Function.ofDefinition =
        (ds.map Function.ofDefinition).filter (!isReserved ·.name) := by
    intro ds
    rw [List.filter_map]
    rfl
  rw [functionsOf, hfilter, h, ← hfilter, functionsOf]

variable {before after : List (List Char)} {line : List Char}

/-- A comment in front of a definition can lend its last word to the header. -/
theorem not_forall_functions_delete_comment :
    ¬ ∀ (text : String) (before after : List (List Char)) (line : List Char),
      lines text.toList = before ++ line :: after → Body.IsComment line →
      '{' ∉ line ∧ '}' ∉ line →
      (ofText (String.ofList (unlines (before ++ after)))).functions = (ofText text).functions := by
  intro h
  have hsame := h "; see define\ndefine i32 @f() \x7b\n\x7d" []
    ["define i32 @f() \x7b".toList, "\x7d".toList] "; see define".toList
    (by decide +kernel) (by decide +kernel) (by decide +kernel)
  exact absurd hsame (by decide +kernel)

/-- A comment without braces can be taken out, if no header runs across an edge of its line or comes
to run across the place where it stood. -/
theorem functions_delete_comment {text : String}
    (hlines : lines text.toList = before ++ line :: after) (hcomment : Body.IsComment line)
    (hbrace : '{' ∉ line ∧ '}' ∉ line)
    (hfront : ¬ Header.Straddles text.toList (unlines before).length)
    (hback : ¬ Header.Straddles text.toList (unlines (before ++ [line])).length)
    (hjoint : ¬ Header.Straddles (unlines (before ++ after)) (unlines before).length) :
    (ofText (String.ofList (unlines (before ++ after)))).functions = (ofText text).functions := by
  have hline : '\n' ∉ line := not_mem_of_mem_lines (s := text.toList) (by simp [hlines])
  have hend : AtLineEnd (after.flatMap ('\n' :: ·)) := by
    cases after <;> simp [AtLineEnd]
  have htext : text.toList = unlines (before ++ [line]) ++ after.flatMap ('\n' :: ·) := by
    rw [← unlines_lines text.toList, hlines, List.append_cons, unlines_append (by simp)]
  have hapart : Header.Apart (unlines (before ++ [line])) (after.flatMap ('\n' :: ·)) :=
    Header.apart_of_not_straddles (htext ▸ hback)
  have hmap : (Definition.all text.toList).map Function.ofDefinition =
      (Definition.all (unlines (before ++ after))).map Function.ofDefinition := by
    rw [htext]
    by_cases hbefore : before = []
    · subst hbefore
      rw [List.nil_append, unlines_cons, List.flatMap_nil, List.append_nil] at hapart ⊢
      rw [Definition.all_append_of_no_brace hbrace.1 hend hapart]
      cases after with
      | nil => rfl
      | cons l ls =>
          rw [List.flatMap_cons, List.cons_append, List.nil_append, unlines_cons,
            Definition.all_cons_of_read?_eq_none (Definition.read?_newline _)]
    · have hone : unlines (before ++ [line]) = unlines before ++ '\n' :: line := by
        simp [unlines_append hbefore]
      rw [htext, hone, List.append_assoc, List.cons_append] at hfront
      rw [unlines_append hbefore] at hjoint
      rw [hone, List.append_cons] at hapart
      rw [hone, unlines_append hbefore, List.append_assoc, List.cons_append]
      exact Definition.map_ofDefinition_all_delete hbrace hline (Body.item?_of_isComment hcomment)
        hend (Header.apart_of_not_straddles hfront) hapart.of_append
        (Header.apart_of_not_straddles hjoint)
  rw [ofText, ofText, String.toList_ofList]
  exact (functionsOf_congr hmap).symm

/-- A comment inside a body, with a whole header in it. -/
theorem functions_delete_comment_in_body :
    let before := ["define i32 @f(i32 %a) \x7b".toList]
    let line := "\t; define void @g(i32) \"inlined".toList
    let after := ["  ret i32 %a ; )".toList, "\x7d".toList]
    let text := String.ofList (unlines (before ++ line :: after))
    lines text.toList = before ++ line :: after ∧ Body.IsComment line ∧
      ('{' ∉ line ∧ '}' ∉ line) ∧
      ¬ Header.Straddles text.toList (unlines before).length ∧
      ¬ Header.Straddles text.toList (unlines (before ++ [line])).length ∧
      ¬ Header.Straddles (unlines (before ++ after)) (unlines before).length ∧
      (ofText (String.ofList (unlines (before ++ after)))).functions = (ofText text).functions := by
  intro before line after text
  have hlines : lines text.toList = before ++ line :: after := by decide +kernel
  have hcomment : Body.IsComment line := by decide +kernel
  have hbrace : '{' ∉ line ∧ '}' ∉ line := by decide +kernel
  have hfront : ¬ Header.Straddles text.toList (unlines before).length := by decide +kernel
  have hback : ¬ Header.Straddles text.toList (unlines (before ++ [line])).length := by
    decide +kernel
  have hjoint : ¬ Header.Straddles (unlines (before ++ after)) (unlines before).length := by
    decide +kernel
  exact ⟨hlines, hcomment, hbrace, hfront, hback, hjoint,
    functions_delete_comment hlines hcomment hbrace hfront hback hjoint⟩

end IrSurvey.Listing
