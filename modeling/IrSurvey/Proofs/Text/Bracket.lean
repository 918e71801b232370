import Mathlib.Data.List.Infix
import IrSurvey.Text.Bracket

/-!
Where brackets close. A text keeps its bracket open if no prefix closes more than it opens; a
balanced one closes in all as many as it opens. The closing index stands behind exactly the
balanced prefixes, and there is none exactly if the text keeps the bracket open to its end.
-/
namespace IrSurvey.Text

/-- No prefix closes more than `depth` brackets beyond those that it opens. -/
def StaysOpen {α : Type} [DecidableEq α] (opening closing : α) (depth : Nat) (s : List α) : Prop :=
  ∀ p, p <+: s → p.count closing ≤ depth + p.count opening

/-- No prefix closes more brackets than it opens, and the whole closes as many. -/
structure Balanced {α : Type} [DecidableEq α] (opening closing : α) (s : List α) : Prop where
  open_prefix : StaysOpen opening closing 0 s
  count_eq : s.count closing = s.count opening

section
variable {α : Type} [DecidableEq α] {opening closing : α} {depth : Nat}

instance (s : List α) : Decidable (StaysOpen opening closing depth s) :=
  decidable_of_iff (∀ p ∈ s.inits, p.count closing ≤ depth + p.count opening) <| by
    simp only [StaysOpen, List.mem_inits]

instance (s : List α) : Decidable (Balanced opening closing s) :=
  decidable_of_iff (StaysOpen opening closing 0 s ∧ s.count closing = s.count opening)
    ⟨fun h => ⟨h.1, h.2⟩, fun h => ⟨h.1, h.2⟩⟩

theorem staysOpen_nil : StaysOpen opening closing depth [] := by
  intro p hp
  rw [List.prefix_nil.1 hp]
  simp

theorem staysOpen_cons {a : α} {s : List α} :
    StaysOpen opening closing depth (a :: s) ↔
      ∀ p, p <+: s → (a :: p).count closing ≤ depth + (a :: p).count opening := by
  constructor
  · intro h p hp
    exact h (a :: p) (List.prefix_cons_inj a |>.2 hp)
  · intro h p hp
    rcases List.prefix_cons_iff.1 hp with rfl | ⟨q, rfl, hq⟩
    · simp
    · exact h q hq

theorem staysOpen_opening (hne : opening ≠ closing) {s : List α} :
    StaysOpen opening closing depth (opening :: s) ↔ StaysOpen opening closing (depth + 1) s := by
  rw [staysOpen_cons]
  refine forall₂_congr fun p _ => ?_
  rw [List.count_cons_of_ne hne, List.count_cons_self]
  omega

theorem staysOpen_closing (hne : opening ≠ closing) {s : List α} :
    StaysOpen opening closing (depth + 1) (closing :: s) ↔ StaysOpen opening closing depth s := by
  rw [staysOpen_cons]
  refine forall₂_congr fun p _ => ?_
  rw [List.count_cons_of_ne hne.symm, List.count_cons_self]
  omega

theorem not_staysOpen_closing (hne : opening ≠ closing) {s : List α} :
    ¬ StaysOpen opening closing 0 (closing :: s) := by
  intro h
  have h₁ := h [closing] ⟨s, rfl⟩
  rw [List.count_cons_self, List.count_cons_of_ne hne.symm] at h₁
  simp at h₁

theorem staysOpen_other {a : α} (ho : a ≠ opening) (hc : a ≠ closing) {s : List α} :
    StaysOpen opening closing depth (a :: s) ↔ StaysOpen opening closing depth s := by
  rw [staysOpen_cons]
  refine forall₂_congr fun p _ => ?_
  rw [List.count_cons_of_ne ho, List.count_cons_of_ne hc]

/-- A stretch without brackets changes nothing. -/
theorem StaysOpen.insert {s t u : List α} (h : StaysOpen opening closing depth (s ++ u))
    (ho : opening ∉ t) (hc : closing ∉ t) : StaysOpen opening closing depth (s ++ t ++ u) := by
  have hcount : ∀ {a}, a ∉ t → ∀ q, q <+: t → q.count a = 0 := fun ha q hq =>
    List.count_eq_zero_of_not_mem fun hmem => ha (hq.mem hmem)
  intro p hp
  rcases List.prefix_or_prefix_of_prefix hp (List.prefix_append (s ++ t) u) with hp | ⟨q, rfl⟩
  · rcases List.prefix_or_prefix_of_prefix hp (List.prefix_append s t) with hp | ⟨q, rfl⟩
    · exact h p (hp.trans (List.prefix_append s u))
    · have hq : q <+: t := (List.prefix_append_right_inj s).1 hp
      simpa [hcount ho q hq, hcount hc q hq] using h s (List.prefix_append s u)
  · have hq : s ++ q <+: s ++ u :=
      (List.prefix_append_right_inj s).2 ((List.prefix_append_right_inj (s ++ t)).1 hp)
    simpa [hcount ho t List.prefix_rfl, hcount hc t List.prefix_rfl] using h _ hq

theorem Balanced.insert {s t u : List α} (h : Balanced opening closing (s ++ u))
    (ho : opening ∉ t) (hc : closing ∉ t) : Balanced opening closing (s ++ t ++ u) where
  open_prefix := h.open_prefix.insert ho hc
  count_eq := by
    simpa [List.count_eq_zero_of_not_mem ho, List.count_eq_zero_of_not_mem hc] using h.count_eq

/-! ## The closing index -/

theorem closeIndex?_opening (s : List α) :
    closeIndex? opening closing depth (opening :: s) =
      (closeIndex? opening closing (depth + 1) s).map (· + 1) := by
  simp only [closeIndex?, if_true]

theorem closeIndex?_closing_zero (hne : opening ≠ closing) (s : List α) :
    closeIndex? opening closing 0 (closing :: s) = some 0 := by
  simp only [closeIndex?, hne.symm, if_true, if_false]

theorem closeIndex?_closing_succ (hne : opening ≠ closing) (s : List α) :
    closeIndex? opening closing (depth + 1) (closing :: s) =
      (closeIndex? opening closing depth s).map (· + 1) := by
  simp only [closeIndex?, hne.symm, if_true, if_false]

theorem closeIndex?_other {a : α} (ho : a ≠ opening) (hc : a ≠ closing) (s : List α) :
    closeIndex? opening closing depth (a :: s) =
      (closeIndex? opening closing depth s).map (· + 1) := by
  simp only [closeIndex?, ho, hc, if_false]

/-- What is no bracket is passed over. -/
theorem closeIndex?_append_of_not_mem {t : List α} (ho : opening ∉ t) (hc : closing ∉ t)
    (s : List α) :
    closeIndex? opening closing depth (t ++ s) =
      (closeIndex? opening closing depth s).map (· + t.length) := by
  induction t with
  | nil => exact Option.map_id'.symm
  | cons a t ih =>
      obtain ⟨hao, hot⟩ := List.ne_and_not_mem_of_not_mem_cons ho
      obtain ⟨hac, hct⟩ := List.ne_and_not_mem_of_not_mem_cons hc
      rw [List.cons_append, closeIndex?_other hao.symm hac.symm, ih hot hct, Option.map_map]
      rfl

/-- What stands behind a text that closes all but one of the brackets closes that one. -/
theorem closeIndex?_append_closing (hne : opening ≠ closing) {p r : List α}
    (hp : StaysOpen opening closing depth p)
    (hcount : p.count closing = depth + p.count opening) :
    closeIndex? opening closing depth (p ++ closing :: r) = some p.length := by
  induction p generalizing depth with
  | nil =>
      obtain rfl : depth = 0 := by simpa using hcount.symm
      simp [closeIndex?, hne.symm]
  | cons a p ih =>
      by_cases ho : a = opening
      · subst ho
        rw [staysOpen_opening hne] at hp
        rw [List.count_cons_of_ne hne, List.count_cons_self] at hcount
        simp [closeIndex?, ih hp (by omega)]
      · by_cases hc : a = closing
        · subst hc
          cases depth with
          | zero => exact absurd hp (not_staysOpen_closing hne)
          | succ depth =>
              rw [staysOpen_closing hne] at hp
              rw [List.count_cons_of_ne hne.symm, List.count_cons_self] at hcount
              simp [closeIndex?, hne.symm, ih hp (by omega)]
        · rw [staysOpen_other ho hc] at hp
          rw [List.count_cons_of_ne ho, List.count_cons_of_ne hc] at hcount
          simp [closeIndex?, ho, hc, ih hp hcount]

/-- A closing index splits the text at the bracket that closes. -/
theorem eq_append_of_closeIndex? (hne : opening ≠ closing) {s : List α} {n : Nat}
    (h : closeIndex? opening closing depth s = some n) :
    ∃ p r, s = p ++ closing :: r ∧ p.length = n ∧ StaysOpen opening closing depth p ∧
      p.count closing = depth + p.count opening := by
  induction s generalizing depth n with
  | nil => simp [closeIndex?] at h
  | cons a s ih =>
      by_cases ho : a = opening
      · subst ho
        simp only [closeIndex?, if_true, Option.map_eq_some_iff] at h
        obtain ⟨m, hm, rfl⟩ := h
        obtain ⟨p, r, rfl, rfl, hp, hcount⟩ := ih hm
        refine ⟨a :: p, r, rfl, rfl, (staysOpen_opening hne).2 hp, ?_⟩
        rw [List.count_cons_of_ne hne, List.count_cons_self]
        omega
      · by_cases hc : a = closing
        · subst hc
          cases depth with
          | zero =>
              simp only [closeIndex?, ho, if_true, if_false, Option.some.injEq] at h
              exact ⟨[], s, rfl, h, staysOpen_nil, rfl⟩
          | succ depth =>
              simp only [closeIndex?, ho, if_true, if_false, Option.map_eq_some_iff] at h
              obtain ⟨m, hm, rfl⟩ := h
              obtain ⟨p, r, rfl, rfl, hp, hcount⟩ := ih hm
              refine ⟨a :: p, r, rfl, rfl, (staysOpen_closing hne).2 hp, ?_⟩
              rw [List.count_cons_of_ne hne.symm, List.count_cons_self]
              omega
        · simp only [closeIndex?, ho, hc, if_false, Option.map_eq_some_iff] at h
          obtain ⟨m, hm, rfl⟩ := h
          obtain ⟨p, r, rfl, rfl, hp, hcount⟩ := ih hm
          refine ⟨a :: p, r, rfl, rfl, (staysOpen_other ho hc).2 hp, ?_⟩
          rw [List.count_cons_of_ne ho, List.count_cons_of_ne hc]
          exact hcount

/-- The closing index is that of the first bracket that closes one too many. -/
theorem closeIndex?_zero_eq_some_iff (hne : opening ≠ closing) {s : List α} {n : Nat} :
    closeIndex? opening closing 0 s = some n ↔
      s[n]? = some closing ∧ (s.take (n + 1)).count closing = (s.take (n + 1)).count opening + 1 ∧
        ∀ p, p <+: s → p.length < n + 1 → p.count closing ≤ p.count opening := by
  constructor
  · intro h
    obtain ⟨p, r, rfl, rfl, hp, hcount⟩ := eq_append_of_closeIndex? hne h
    have htake : (p ++ closing :: r).take (p.length + 1) = p ++ [closing] := by
      rw [List.take_length_add_append]
      rfl
    refine ⟨?_, ?_, ?_⟩
    · rw [List.getElem?_append_right (Nat.le_refl _), Nat.sub_self]
      rfl
    · rw [htake, List.count_append, List.count_append, List.count_singleton_self,
        List.count_singleton, hcount]
      simp [hne.symm]
    · intro q hq hlen
      have hqp : q <+: p :=
        List.prefix_of_prefix_length_le hq (List.prefix_append p _) (Nat.le_of_lt_succ hlen)
      simpa using hp q hqp
  · rintro ⟨hclosing, hcount, hprefix⟩
    obtain ⟨hn, hget⟩ := List.getElem?_eq_some_iff.1 hclosing
    have hs : s = s.take n ++ closing :: s.drop (n + 1) := by
      rw [← hget, ← List.drop_eq_getElem_cons hn, List.take_append_drop]
    have hlen : (s.take n).length = n := List.length_take_of_le (Nat.le_of_lt hn)
    have htake : s.take (n + 1) = s.take n ++ [closing] := by
      rw [← List.take_concat_get' s n hn, hget]
    have hopen : StaysOpen opening closing 0 (s.take n) := by
      intro q hq
      have hle : q.length ≤ n := hlen ▸ hq.length_le
      simpa using hprefix q (hq.trans (List.take_prefix n s)) (Nat.lt_succ_of_le hle)
    have hbalance : (s.take n).count closing = 0 + (s.take n).count opening := by
      rw [htake, List.count_append, List.count_append, List.count_singleton_self,
        List.count_singleton] at hcount
      simpa [hne.symm] using hcount
    rw [hs, closeIndex?_append_closing hne hopen hbalance, hlen]

theorem closeIndex?_eq_none_iff (hne : opening ≠ closing) {s : List α} :
    closeIndex? opening closing depth s = none ↔ StaysOpen opening closing depth s := by
  induction s generalizing depth with
  | nil => exact ⟨fun _ => staysOpen_nil, fun _ => rfl⟩
  | cons a s ih =>
      by_cases ho : a = opening
      · subst ho
        rw [staysOpen_opening hne, ← ih]
        simp [closeIndex?]
      · by_cases hc : a = closing
        · subst hc
          cases depth with
          | zero => simp [closeIndex?, ho, not_staysOpen_closing hne]
          | succ depth =>
              rw [staysOpen_closing hne, ← ih]
              simp [closeIndex?, ho]
        · rw [staysOpen_other ho hc, ← ih]
          simp [closeIndex?, ho, hc]

end

variable {opening closing : Char}

theorem splitClose?_eq_some_iff (hne : opening ≠ closing) {s p r : List Char} :
    splitClose? opening closing s = some (p, r) ↔
      s = p ++ closing :: r ∧ Balanced opening closing p := by
  constructor
  · intro h
    obtain ⟨n, hn, he⟩ := Option.map_eq_some_iff.1 h
    obtain ⟨q, t, rfl, rfl, hq, hcount⟩ := eq_append_of_closeIndex? hne hn
    obtain ⟨rfl, rfl⟩ : q = p ∧ t = r := by simpa using he
    exact ⟨rfl, hq, by simpa using hcount⟩
  · rintro ⟨rfl, hp⟩
    have h := closeIndex?_append_closing (r := r) hne hp.open_prefix (by simpa using hp.count_eq)
    simp [splitClose?, h]

theorem splitClose?_eq_none_iff (hne : opening ≠ closing) {s : List Char} :
    splitClose? opening closing s = none ↔ StaysOpen opening closing 0 s := by
  rw [splitClose?, Option.map_eq_none_iff]
  exact closeIndex?_eq_none_iff hne

/-- What follows a text in which the bracket closes has no part in where it does. -/
theorem splitClose?_append_of_eq_some (hne : opening ≠ closing) {s p r : List Char}
    (h : splitClose? opening closing s = some (p, r)) (t : List Char) :
    splitClose? opening closing (s ++ t) = some (p, r ++ t) := by
  obtain ⟨rfl, hp⟩ := (splitClose?_eq_some_iff hne).1 h
  exact (splitClose?_eq_some_iff hne).2 ⟨by simp, hp⟩

/-- A bracket that does not close in what follows a text closes in the text or not at all. -/
theorem splitClose?_append (hne : opening ≠ closing) {s t : List Char}
    (h : ∀ p r, splitClose? opening closing (s ++ t) = some (p, r) → t.length ≤ r.length) :
    splitClose? opening closing (s ++ t) =
      (splitClose? opening closing s).map fun q => (q.1, q.2 ++ t) := by
  cases hs : splitClose? opening closing s with
  | some q => exact splitClose?_append_of_eq_some hne hs t
  | none =>
      cases hst : splitClose? opening closing (s ++ t) with
      | none => rfl
      | some q =>
          obtain ⟨p, r⟩ := q
          obtain ⟨heq, hp⟩ := (splitClose?_eq_some_iff hne).1 hst
          obtain ⟨r', hr⟩ : t <:+ r := List.suffix_of_suffix_length_le ⟨s, rfl⟩
            ⟨p ++ [closing], by simp [heq]⟩ (h p r hst)
          have hclose : s = p ++ closing :: r' := by
            apply (List.append_left_inj t).1
            rw [heq, ← hr]
            simp
          rw [(splitClose?_eq_some_iff hne).2 ⟨hclose, hp⟩] at hs
          cases hs

/-- A text without the closing bracket closes none. -/
theorem splitClose?_append_of_not_mem (hne : opening ≠ closing) {t : List Char} (ht : closing ∉ t)
    (s : List Char) :
    splitClose? opening closing (s ++ t) =
      (splitClose? opening closing s).map fun q => (q.1, q.2 ++ t) := by
  refine splitClose?_append hne fun p r h => ?_
  obtain ⟨heq, -⟩ := (splitClose?_eq_some_iff hne).1 h
  -- the bracket stands in front of the text, which is then a part of what follows it
  rcases List.append_eq_append_iff.1 heq with ⟨q, -, rfl⟩ | ⟨q, rfl, hq⟩
  · exact absurd (List.mem_append_right q List.mem_cons_self) ht
  · cases q with
    | nil =>
        obtain rfl : t = closing :: r := hq.symm
        exact absurd List.mem_cons_self ht
    | cons a q =>
        obtain ⟨-, rfl⟩ := List.cons.inj hq
        simp

end IrSurvey.Text
