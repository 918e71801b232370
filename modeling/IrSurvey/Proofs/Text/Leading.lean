import Mathlib.Data.List.TakeWhile
import IrSurvey.Text.Leading

/-!
The longest stretch of a class at the front of a text: where it ends, and that it is found again in
front of an element outside the class. What stands in front of each occurrence of an element is
found character by character.
-/
namespace IrSurvey.Text

variable {α : Type} {p : α → Bool} {s t : List α} {a : α}

/-- Whatever follows it, an element outside the class is in front. -/
theorem forall_head?_cons (ha : p a = false) : ∀ b ∈ (a :: t).head?, p b = false := by
  rintro b ⟨⟩
  exact ha

theorem dropWhile_eq_self (h : ∀ a ∈ s.head?, p a = false) : s.dropWhile p = s := by
  cases s with
  | nil => rfl
  | cons a s => exact List.dropWhile_cons_of_neg (by simp [h a rfl])

theorem head?_dropWhile (p : α → Bool) (s : List α) :
    ∀ a ∈ (s.dropWhile p).head?, p a = false := by
  intro a ha
  have h := List.head?_dropWhile_not p s
  rw [Option.mem_def] at ha
  simpa only [ha] using h

theorem takeWhile_append_cons (hs : ∀ b ∈ s, p b = true) (ha : p a = false) :
    (s ++ a :: t).takeWhile p = s := by
  rw [List.takeWhile_append_of_pos hs, List.takeWhile_cons_of_neg (by simp [ha]),
    List.append_nil]

theorem dropWhile_append_cons (hs : ∀ b ∈ s, p b = true) (ha : p a = false) :
    (s ++ a :: t).dropWhile p = a :: t := by
  rw [List.dropWhile_append_of_pos hs, List.dropWhile_cons_of_neg (by simp [ha])]

/-- A text that starts outside the class stays behind what is dropped. -/
theorem dropWhile_append_of_head? (ht : ∀ a ∈ t.head?, p a = false) :
    (s ++ t).dropWhile p = s.dropWhile p ++ t := by
  rw [List.dropWhile_append]
  split
  next h => rw [List.isEmpty_iff.1 h, dropWhile_eq_self ht, List.nil_append]
  next => rfl

theorem takeWhile_append_of_head? (ht : ∀ a ∈ t.head?, p a = false) :
    (s ++ t).takeWhile p = s.takeWhile p := by
  have ht' : t.takeWhile p = [] := by
    cases t with
    | nil => rfl
    | cons a t => exact List.takeWhile_cons_of_neg (by simp [ht a rfl])
  rw [List.takeWhile_append]
  split
  next h => rw [ht', List.append_nil, (List.takeWhile_sublist p).eq_of_length h]
  next => rfl

theorem eq_takeWhile_append_cons (h : s.dropWhile p = a :: t) :
    s = s.takeWhile p ++ a :: t := by
  rw [← h, List.takeWhile_append_dropWhile]

/-- What stops at an element of a text stops there whatever follows the text. -/
theorem span_append_of_ne_nil (h : s.dropWhile p ≠ []) (t : List α) :
    (s ++ t).takeWhile p = s.takeWhile p ∧ (s ++ t).dropWhile p = s.dropWhile p ++ t := by
  obtain ⟨a, r, hr⟩ := List.exists_cons_of_ne_nil h
  have ha : p a = false := head?_dropWhile p s a (by rw [hr]; rfl)
  have hs : ∀ b ∈ s.takeWhile p, p b = true := fun _ hb => List.mem_takeWhile_imp hb
  have happ : s ++ t = s.takeWhile p ++ a :: (r ++ t) := by
    rw [← List.cons_append, ← List.append_assoc, ← eq_takeWhile_append_cons hr]
  rw [happ, takeWhile_append_cons hs ha, dropWhile_append_cons hs ha, hr, List.cons_append]
  exact ⟨rfl, rfl⟩

/-- What holds of the text in front of each `a` is that of a longer text with one more element. -/
theorem forall_before_cons {Q : List α → Prop} {b : α} :
    (∀ l r, b :: s = l ++ a :: r → Q l) ↔
      (b = a → Q []) ∧ ∀ l r, s = l ++ a :: r → Q (b :: l) := by
  constructor
  · intro h
    refine ⟨?_, ?_⟩
    · rintro rfl
      exact h [] s rfl
    · rintro l r rfl
      exact h (b :: l) r rfl
  · rintro ⟨hb, hs⟩ l r h
    rcases List.cons_eq_append_iff.1 h with ⟨rfl, he⟩ | ⟨l, rfl, rfl⟩
    · exact hb (List.cons.inj he).1.symm
    · exact hs l r rfl

end IrSurvey.Text
