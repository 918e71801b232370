import Mathlib.Data.List.Basic
import Mathlib.Data.List.Infix
import Mathlib.Data.Nat.Digits.Defs
import IrSurvey.Proofs.Text.Digit
import IrSurvey.Proofs.Text.Leading
import IrSurvey.Report.Document

/-!
Escaped text and the tags around it. Escaping is undone by reading the entities back, and it leaves
no angle bracket; so a text whose own brackets pair up has the same tags whatever is escaped into it.
-/
namespace IrSurvey.Html

/-- Reads the entities back, from left to right. Any other ampersand stands for itself. -/
def unescape : List Char → List Char
  | '&' :: 'a' :: 'm' :: 'p' :: ';' :: s => '&' :: unescape s
  | '&' :: 'l' :: 't' :: ';' :: s => '<' :: unescape s
  | '&' :: 'g' :: 't' :: ';' :: s => '>' :: unescape s
  | '&' :: 'q' :: 'u' :: 'o' :: 't' :: ';' :: s => '"' :: unescape s
  | '&' :: '#' :: '3' :: '9' :: ';' :: s => '\'' :: unescape s
  | c :: s => c :: unescape s
  | [] => []

variable {s t a b : List Char}

theorem unescape_cons (hc : c ≠ '&') (s : List Char) : unescape (c :: s) = c :: unescape s := by
  rw [unescape] <;> simp [hc]

theorem unescape_escapeChar (c : Char) (s : List Char) :
    unescape (escapeChar c ++ s) = c :: unescape s := by
  unfold escapeChar
  split
  case h_6 hamp _ _ _ _ => exact unescape_cons hamp s
  all_goals simp [unescape]

theorem unescape_escape (s : String) : unescape (escape s).toList = s.toList := by
  rw [escape, String.toList_ofList]
  induction s.toList with
  | nil => rfl
  | cons c s ih => rw [List.flatMap_cons, unescape_escapeChar, ih]

example : unescape "&amp;lt; &amp".toList = "&lt; &amp".toList := by decide

/-- Text without an angle bracket. -/
structure Plain (s : List Char) : Prop where
  no_open : '<' ∉ s
  no_close : '>' ∉ s

instance (s : List Char) : Decidable (Plain s) :=
  decidable_of_iff ('<' ∉ s ∧ '>' ∉ s) ⟨fun h => ⟨h.1, h.2⟩, fun h => ⟨h.1, h.2⟩⟩

theorem plain_escapeChar (c : Char) : Plain (escapeChar c) := by
  unfold escapeChar
  split
  case h_6 _ hopen hclose _ _ =>
      constructor
      · exact fun h => hopen (List.mem_singleton.1 h).symm
      · exact fun h => hclose (List.mem_singleton.1 h).symm
  all_goals decide

theorem plain_escape (s : String) : Plain (escape s).toList := by
  rw [escape, String.toList_ofList]
  constructor
  · intro h
    obtain ⟨c, -, hc⟩ := List.mem_flatMap.1 h
    exact (plain_escapeChar c).no_open hc
  · intro h
    obtain ⟨c, -, hc⟩ := List.mem_flatMap.1 h
    exact (plain_escapeChar c).no_close hc

theorem Plain.all_ne_open (hs : Plain s) : ∀ c ∈ s, decide (c ≠ '<') = true := by
  intro c hc
  rw [decide_eq_true_eq]
  rintro rfl
  exact hs.no_open hc

theorem takeWhile_escape (u : String) (t : List Char) :
    ((escape u).toList ++ '<' :: t).takeWhile (· ≠ '<') = (escape u).toList :=
  Text.takeWhile_append_cons (plain_escape u).all_ne_open (by decide)

theorem dropWhile_escape (u : String) (t : List Char) :
    ((escape u).toList ++ '<' :: t).dropWhile (· ≠ '<') = '<' :: t :=
  Text.dropWhile_append_cons (plain_escape u).all_ne_open (by decide)

theorem plain_toString (n : Nat) : Plain (toString n).toList := by
  exact ⟨fun h => absurd (Text.isDigit_of_mem_toString h) (by decide),
    fun h => absurd (Text.isDigit_of_mem_toString h) (by decide)⟩

/-! ## Tags -/

/-- The tags from here on, each from a `<` to the next `>`; `tag` is what has been read of one that
is open. -/
def tagsFrom : Option (List Char) → List Char → List String
  | _, [] => []
  | none, c :: s => tagsFrom (if c = '<' then some [c] else none) s
  | some tag, c :: s =>
    if c = '>' then String.ofList (tag ++ [c]) :: tagsFrom none s
    else tagsFrom (some (tag ++ [c])) s

def tags (s : List Char) : List String :=
  tagsFrom none s

/-- The angle brackets open and close in turn, and the text ends outside a tag. -/
def Alternating : Bool → List Char → Prop
  | inside, [] => inside = false
  | false, c :: s => c ≠ '>' ∧ Alternating (c = '<') s
  | true, c :: s => c ≠ '<' ∧ Alternating (c ≠ '>') s

instance Alternating.decidable : (inside : Bool) → (s : List Char) →
    Decidable (Alternating inside s)
  | inside, [] => inferInstanceAs (Decidable (inside = false))
  | false, c :: s =>
    haveI := decidable (decide (c = '<')) s
    inferInstanceAs (Decidable (c ≠ '>' ∧ Alternating (c = '<') s))
  | true, c :: s =>
    haveI := decidable (decide (c ≠ '>')) s
    inferInstanceAs (Decidable (c ≠ '<' ∧ Alternating (c ≠ '>') s))

theorem alternating_append {inside : Bool} (hs : Alternating inside s) :
    Alternating inside (s ++ t) ↔ Alternating false t := by
  induction s generalizing inside with
  | nil =>
      obtain rfl : inside = false := hs
      exact Iff.rfl
  | cons c s ih =>
      cases inside with
      | false => exact (and_iff_right hs.1).trans (ih hs.2)
      | true => exact (and_iff_right hs.1).trans (ih hs.2)

/-- A tag opens outside all others. -/
theorem Alternating.of_append_open {inside : Bool} (h : Alternating inside (s ++ '<' :: t)) :
    Alternating inside s := by
  induction s generalizing inside with
  | nil =>
      cases inside with
      | false => rfl
      | true => exact absurd rfl h.1
  | cons c s ih =>
      cases inside with
      | false => exact ⟨h.1, ih h.2⟩
      | true => exact ⟨h.1, ih h.2⟩

theorem tagsFrom_append {tag : Option (List Char)} (hs : Alternating tag.isSome s)
    (t : List Char) : tagsFrom tag (s ++ t) = tagsFrom tag s ++ tags t := by
  induction s generalizing tag with
  | nil =>
      cases tag with
      | none => rfl
      | some tag => cases hs
  | cons c s ih =>
      cases tag with
      | none =>
          by_cases hc : c = '<'
          · simpa [tagsFrom, hc] using ih (by simpa [hc] using hs.2)
          · simpa [tagsFrom, hc] using ih (by simpa [hc] using hs.2)
      | some tag =>
          by_cases hc : c = '>'
          · simpa [tagsFrom, hc] using ih (by simpa [hc] using hs.2)
          · simpa [tagsFrom, hc] using ih (by simpa [hc] using hs.2)

theorem tags_append (hs : Alternating false s) (t : List Char) :
    tags (s ++ t) = tags s ++ tags t :=
  tagsFrom_append (show Alternating (none : Option (List Char)).isSome s from hs) t

theorem Plain.alternating (hs : Plain s) : Alternating false s := by
  induction s with
  | nil => rfl
  | cons c s ih =>
      obtain ⟨hopen, hclose⟩ := hs
      rw [List.mem_cons, not_or] at hopen hclose
      have hc : decide (c = '<') = false := decide_eq_false (Ne.symm hopen.1)
      exact ⟨Ne.symm hclose.1, hc ▸ ih ⟨hopen.2, hclose.2⟩⟩

theorem tags_eq_nil (hs : '<' ∉ s) : tags s = [] := by
  induction s with
  | nil => rfl
  | cons c s ih =>
      rw [List.mem_cons, not_or] at hs
      rw [tags, tagsFrom, if_neg (Ne.symm hs.1)]
      exact ih hs.2

theorem tags_ne_nil (hs : Alternating false ('<' :: s)) : tags ('<' :: s) ≠ [] := by
  have hopen : ∀ (tag : List Char) (s : List Char), Alternating true s →
      tagsFrom (some tag) s ≠ [] := by
    intro tag s hs
    induction s generalizing tag with
    | nil => cases hs
    | cons c s ih =>
        rw [tagsFrom]
        split
        next => exact List.cons_ne_nil _ _
        next hc => exact ih _ (by simpa [hc] using hs.2)
  exact hopen ['<'] s hs.2

/-! ## Texts with known tags -/

/-- A text of alternating brackets, with its tags. -/
structure HasTags (u : String) (ts : List String) : Prop where
  alternating : Alternating false u.toList
  tags_eq : tags u.toList = ts

variable {u v : String} {ts us : List String}

/-- For literals, where both sides of each hypothesis are the same by computation. -/
theorem HasTags.ofList (hs : decide (Alternating false s) = true) (htags : tags s = ts) :
    HasTags (String.ofList s) ts where
  alternating := by
    rw [String.toList_ofList]
    exact of_decide_eq_true hs
  tags_eq := by rwa [String.toList_ofList]

theorem Plain.hasTags (h : Plain u.toList) : HasTags u [] :=
  ⟨h.alternating, tags_eq_nil h.1⟩

theorem HasTags.append (hu : HasTags u ts) (hv : HasTags v us) : HasTags (u ++ v) (ts ++ us) where
  alternating := by
    rw [String.toList_append]
    exact (alternating_append hu.alternating).2 hv.alternating
  tags_eq := by rw [String.toList_append, tags_append hu.alternating, hu.tags_eq, hv.tags_eq]

theorem HasTags.append_plain (hu : HasTags u ts) (hv : Plain v.toList) : HasTags (u ++ v) ts := by
  simpa using hu.append hv.hasTags

theorem HasTags.join {α : Type} {f : α → String} {g : α → List String} {l : List α}
    (h : ∀ x ∈ l, HasTags (f x) (g x)) : HasTags (String.join (l.map f)) (l.flatMap g) := by
  induction l with
  | nil => exact ⟨rfl, rfl⟩
  | cons x l ih =>
      rw [List.map_cons, String.join_cons, List.flatMap_cons]
      exact (h x List.mem_cons_self).append (ih fun y hy => h y (List.mem_cons_of_mem x hy))

theorem HasTags.intercalate {α : Type} {f : α → String} {g : α → List String} {l : List α}
    (hu : Plain u.toList) (h : ∀ x ∈ l, HasTags (f x) (g x)) :
    HasTags (u.intercalate (l.map f)) (l.flatMap g) := by
  induction l with
  | nil => exact ⟨rfl, rfl⟩
  | cons x l ih =>
      have hx := h x List.mem_cons_self
      have hl := ih fun y hy => h y (List.mem_cons_of_mem x hy)
      cases l with
      | nil =>
          rw [List.map_singleton, String.intercalate_singleton, List.flatMap_singleton]
          exact hx
      | cons y l =>
          rw [List.map_cons, List.map_cons, String.intercalate_cons_cons, List.flatMap_cons]
          exact (hx.append_plain hu).append hl

theorem Plain.append (hs : Plain s) (ht : Plain t) : Plain (s ++ t) where
  no_open := fun h => (List.mem_append.1 h).elim hs.no_open ht.no_open
  no_close := fun h => (List.mem_append.1 h).elim hs.no_close ht.no_close

theorem Plain.ofList (h : decide (Plain s) = true) : Plain (String.ofList s).toList := by
  rw [String.toList_ofList]
  exact of_decide_eq_true h

theorem Plain.join {l : List String} (h : ∀ x ∈ l, Plain x.toList) :
    Plain (String.join l).toList := by
  induction l with
  | nil => decide
  | cons x l ih =>
      rw [String.join_cons, String.toList_append]
      exact (h x List.mem_cons_self).append (ih fun y hy => h y (List.mem_cons_of_mem x hy))

/-! ## The place of a tag -/

/-- A text that is a tag. -/
structure IsTag (d : String) : Prop where
  head?_eq : d.toList.head? = some '<'
  hasTags : HasTags d [d]

variable {d : String}

theorem IsTag.ofList (hhead : s.head? = some '<') (hs : decide (Alternating false s) = true)
    (htags : tags s = [String.ofList s]) : IsTag (String.ofList s) where
  head?_eq := by rwa [String.toList_ofList]
  hasTags := .ofList hs htags

theorem tags_split (hd : IsTag d) (hs : Alternating false (a ++ d.toList ++ b)) :
    Alternating false a ∧ tags (a ++ d.toList ++ b) = tags a ++ d :: tags b := by
  have ha : Alternating false a := by
    obtain ⟨e, he⟩ := List.head?_eq_some_iff.1 hd.head?_eq
    rw [he, List.append_assoc] at hs
    exact hs.of_append_open
  refine ⟨ha, ?_⟩
  rw [List.append_assoc, tags_append ha, tags_append hd.hasTags.alternating, hd.hasTags.tags_eq,
    List.singleton_append]

theorem eq_nil_of_tags_append {m r : List Char} (hs : Alternating false (a ++ m))
    (ha : Alternating false a) (htags : tags (a ++ m) = tags a) (hm : m ++ r = '<' :: t) :
    m = [] := by
  rw [tags_append ha, List.append_right_eq_self] at htags
  cases m with
  | nil => rfl
  | cons c m =>
      obtain rfl : c = '<' := (List.cons.inj hm).1
      exact absurd htags (tags_ne_nil ((alternating_append ha).1 hs))

/-- A tag that a text has only once is found in one place. -/
theorem split_unique {a' b' : List Char} (hd : IsTag d)
    (hs : Alternating false (a ++ d.toList ++ b))
    (hcount : (tags (a ++ d.toList ++ b)).count d = 1)
    (h : a ++ d.toList ++ b = a' ++ d.toList ++ b') : a = a' ∧ b = b' := by
  obtain ⟨ha, htags⟩ := tags_split hd hs
  obtain ⟨ha', htags'⟩ := tags_split hd (h ▸ hs)
  rw [htags, List.count_append, List.count_cons_self] at hcount
  have hbefore : d ∉ tags a := List.count_eq_zero.1 (by omega)
  have hbehind : d ∉ tags b := List.count_eq_zero.1 (by omega)
  obtain ⟨heq, -, -⟩ := (List.append_cons_inj_of_notMem hbefore hbehind).1
    (htags.symm.trans ((congrArg tags h).trans htags'))
  obtain ⟨e, he⟩ := List.head?_eq_some_iff.1 hd.head?_eq
  -- the longer of the two texts before the tag has no more tags, so it is not longer
  have hcut : a = a' := by
    rw [List.append_assoc, List.append_assoc, he] at h
    rcases List.append_eq_append_iff.1 h with ⟨m, rfl, hm⟩ | ⟨m, rfl, hm⟩
    · rw [eq_nil_of_tags_append ha' ha heq.symm hm.symm, List.append_nil]
    · rw [eq_nil_of_tags_append ha ha' heq hm.symm, List.append_nil]
  subst hcut
  rw [List.append_assoc, List.append_assoc] at h
  exact ⟨rfl, List.append_cancel_left (List.append_cancel_left h)⟩

end IrSurvey.Html
