import IrSurvey.Json.Token
import IrSurvey.Proofs.Text.Digit
import IrSurvey.Proofs.Text.Leading

/-!
Numbers of the grammar: each is read as it stands there, in front of a text that does not go on with
it.
-/
namespace IrSurvey.Json
open Text

variable {r : List Char}

namespace Token

/-- The text does not go on with a number. -/
def EndsNumber (r : List Char) : Prop :=
  ∀ c ∈ r.head?, c.isDigit = false ∧ c ≠ '.' ∧ c ≠ 'e' ∧ c ≠ 'E'

theorem digits?_append {ds : List Char} (hne : ds ≠ []) (hds : ∀ c ∈ ds, c.isDigit = true)
    (hr : ∀ c ∈ r.head?, c.isDigit = false) : digits? (ds ++ r) = some (ds, r) := by
  obtain ⟨d, ds, rfl⟩ := List.exists_cons_of_ne_nil hne
  have hd := hds d List.mem_cons_self
  have htail : ∀ c ∈ ds, c.isDigit = true := fun c hc => hds c (List.mem_cons_of_mem d hc)
  have htake : r.takeWhile Char.isDigit = [] := by
    cases r with
    | nil => rfl
    | cons c r => exact List.takeWhile_cons_of_neg (by simp [hr c rfl])
  rw [List.cons_append, digits?, if_pos hd, List.takeWhile_append_of_pos htail,
    List.dropWhile_append_of_pos htail, htake, dropWhile_eq_self hr, List.append_nil]

/-- A natural number starts with a zero only if it is zero. -/
theorem toDigits_head_ne_zero {n : Nat} (hn : 0 < n) :
    ∃ d ds, Nat.toDigits 10 n = d :: ds ∧ d ≠ '0' := by
  induction n using Nat.base_induction 10 (by decide) with
  | single m hm =>
      have hdigit : ∀ m < 10, 0 < m → Nat.digitChar m ≠ '0' := by decide
      exact ⟨_, [], Nat.toDigits_of_lt_base hm, hdigit m hm hn⟩
  | digit m k hk hm ih =>
      obtain ⟨d, ds, hds, hd⟩ := ih hm
      rw [← Nat.toDigits_append_toDigits (by decide) hm hk, hds]
      exact ⟨d, _, rfl, hd⟩

/-- A digit starts nothing but a number. -/
theorem next?_digit {d : Char} (hd : d.isDigit = true) (s : List Char) :
    next? (d :: s) = (unsigned? (d :: s)).map fun (n, r) => (.number (String.ofList n), r) := by
  have hsign : number? (d :: s) = unsigned? (d :: s) := by
    unfold number?
    split
    next h =>
        cases h
        exact absurd hd (by decide)
    next => rfl
  unfold next?
  split
  case h_11 => rw [hsign]
  all_goals
    next h =>
      cases h
      exact absurd hd (by decide)

end Token

/-- Digits, at least one. -/
structure IsDigits (s : List Char) : Prop where
  ne_nil : s ≠ []
  isDigit : ∀ c ∈ s, c.isDigit = true

/-- A number of the grammar in its four parts. -/
structure Numeral where
  sign : List Char
  whole : List Char
  fraction : List Char
  exponent : List Char
  sign_cases : sign = [] ∨ sign = ['-']
  whole_cases : whole = ['0'] ∨ (IsDigits whole ∧ whole.head? ≠ some '0')
  fraction_cases : fraction = [] ∨ ∃ ds, IsDigits ds ∧ fraction = '.' :: ds
  exponent_cases : exponent = [] ∨ ∃ e s ds, (e = 'e' ∨ e = 'E') ∧
    (s = [] ∨ s = ['+'] ∨ s = ['-']) ∧ IsDigits ds ∧ exponent = e :: (s ++ ds)

namespace Numeral
open Token

def chars (n : Numeral) : List Char :=
  n.sign ++ (n.whole ++ (n.fraction ++ n.exponent))

def literal (n : Numeral) : String :=
  String.ofList n.chars

/-- A natural number in decimal digits. -/
def ofNat (k : Nat) : Numeral where
  sign := []
  whole := (toString k).toList
  fraction := []
  exponent := []
  sign_cases := .inl rfl
  whole_cases := by
    rcases Nat.eq_zero_or_pos k with rfl | hk
    · exact .inl rfl
    · obtain ⟨d, ds, hds, hd⟩ := toDigits_head_ne_zero hk
      have hdigits : IsDigits (toString k).toList :=
        ⟨toList_toString_ne_nil k, fun c hc => isDigit_of_mem_toString hc⟩
      refine .inr ⟨hdigits, ?_⟩
      rw [toList_toString, hds]
      exact fun h => hd (Option.some.inj h)
  fraction_cases := .inl rfl
  exponent_cases := .inl rfl

theorem literal_ofNat (k : Nat) : (ofNat k).literal = toString k := by
  simp only [literal, chars, ofNat, List.nil_append, List.append_nil, String.ofList_toList]

theorem whole_isDigits (n : Numeral) : IsDigits n.whole := by
  rcases n.whole_cases with h | ⟨h, -⟩
  · rw [h]
    exact ⟨List.cons_ne_nil _ _, List.forall_mem_singleton.2 rfl⟩
  · exact h

theorem exists_digit_whole (n : Numeral) : ∃ d ds, n.whole = d :: ds ∧ d.isDigit = true := by
  obtain ⟨hne, hdigits⟩ := n.whole_isDigits
  obtain ⟨d, ds, hds⟩ := List.exists_cons_of_ne_nil hne
  exact ⟨d, ds, hds, hdigits d (hds ▸ List.mem_cons_self)⟩

/-- The characters of numbers. -/
theorem mem_chars (n : Numeral) :
    ∀ c ∈ n.chars, c.isDigit = true ∨ c ∈ ['-', '+', '.', 'e', 'E'] := by
  have hdigits : ∀ {ds}, IsDigits ds → ∀ c ∈ ds, c.isDigit = true ∨ c ∈ ['-', '+', '.', 'e', 'E'] :=
    fun hds c hc => .inl (hds.isDigit c hc)
  refine List.forall_mem_append.2 ⟨?_, List.forall_mem_append.2 ⟨hdigits n.whole_isDigits,
    List.forall_mem_append.2 ⟨?_, ?_⟩⟩⟩
  · rcases n.sign_cases with h | h
    · rw [h]
      exact List.forall_mem_nil _
    · rw [h]
      exact List.forall_mem_singleton.2 (.inr (by decide))
  · rcases n.fraction_cases with h | ⟨ds, hds, h⟩
    · rw [h]
      exact List.forall_mem_nil _
    · rw [h]
      exact List.forall_mem_cons.2 ⟨.inr (by decide), hdigits hds⟩
  · rcases n.exponent_cases with h | ⟨e, s, ds, he, hs, hds, h⟩
    · rw [h]
      exact List.forall_mem_nil _
    · have hmark : e ∈ ['-', '+', '.', 'e', 'E'] := by
        rcases he with rfl | rfl <;> decide
      have hsign : ∀ c ∈ s, c.isDigit = true ∨ c ∈ ['-', '+', '.', 'e', 'E'] := by
        rcases hs with rfl | rfl | rfl
        · exact List.forall_mem_nil _
        · exact List.forall_mem_singleton.2 (.inr (by decide))
        · exact List.forall_mem_singleton.2 (.inr (by decide))
      rw [h]
      exact List.forall_mem_cons.2 ⟨.inr hmark, List.forall_mem_append.2 ⟨hsign, hdigits hds⟩⟩

/-- A number in front is zero, or a zero with a fraction or an exponent behind it, or it starts with
neither a plus nor a zero. -/
theorem chars_cases (n : Numeral) :
    n.chars = ['0'] ∨ (∃ c r, n.chars = '0' :: c :: r ∧ (c = '.' ∨ c = 'e' ∨ c = 'E')) ∨
      ∃ c r, n.chars = c :: r ∧ c ≠ '+' ∧ c ≠ '0' := by
  rcases n.sign_cases with hsign | hsign
  · rcases n.whole_cases with hwhole | ⟨⟨hne, hdigits⟩, hhead⟩
    · rcases n.fraction_cases with hfraction | ⟨ds, -, hfraction⟩
      · rcases n.exponent_cases with hexponent | ⟨e, _, _, he, -, -, hexponent⟩
        · exact .inl (by rw [chars, hsign, hwhole, hfraction, hexponent]; rfl)
        · exact .inr (.inl ⟨e, _, by rw [chars, hsign, hwhole, hfraction, hexponent]; rfl, .inr he⟩)
      · exact .inr (.inl ⟨'.', _, by rw [chars, hsign, hwhole, hfraction]; rfl, .inl rfl⟩)
    · obtain ⟨d, ds, hds⟩ := List.exists_cons_of_ne_nil hne
      have hd : d.isDigit = true := hdigits d (by rw [hds]; exact List.mem_cons_self)
      refine .inr (.inr ⟨d, _, by rw [chars, hsign, hds]; rfl, ?_, ?_⟩)
      · rintro rfl
        exact absurd hd (by decide)
      · rintro rfl
        exact hhead (by rw [hds]; rfl)
  · exact .inr (.inr ⟨'-', _, by rw [chars, hsign]; rfl, by decide, by decide⟩)

theorem exponent?_append (n : Numeral) (hr : EndsNumber r) :
    exponent? (n.exponent ++ r) = some (n.exponent, r) := by
  have hdigit : ∀ c ∈ r.head?, c.isDigit = false := fun c hc => (hr c hc).1
  rcases n.exponent_cases with h | ⟨e, s, ds, he, hs, ⟨hne, hds⟩, h⟩
  · rw [h, List.nil_append]
    unfold exponent?
    split
    next s => exact absurd rfl (hr 'e' rfl).2.2.1
    next s => exact absurd rfl (hr 'E' rfl).2.2.2
    next => rfl
  · have hsign : Token.sign (s ++ ds ++ r) = (s, ds ++ r) := by
      rcases hs with rfl | rfl | rfl
      · obtain ⟨d, ds, rfl⟩ := List.exists_cons_of_ne_nil hne
        have hd := hds d List.mem_cons_self
        rw [List.nil_append, List.cons_append, Token.sign]
        · rintro s hd'
          rw [(List.cons.inj hd').1] at hd
          exact absurd hd (by decide)
        · rintro s hd'
          rw [(List.cons.inj hd').1] at hd
          exact absurd hd (by decide)
      · rfl
      · rfl
    rw [h, List.cons_append]
    rcases he with rfl | rfl
    · rw [exponent?, hsign, digits?_append hne hds hdigit]
      rfl
    · rw [exponent?, hsign, digits?_append hne hds hdigit]
      rfl

/-- No digit follows the whole part or the fraction. -/
theorem head?_exponent_append (n : Numeral) (hr : EndsNumber r) :
    ∀ c ∈ (n.exponent ++ r).head?, c.isDigit = false ∧ c ≠ '.' := by
  rcases n.exponent_cases with h | ⟨e, s, ds, he, -, -, h⟩
  · rw [h]
    exact fun c hc => ⟨(hr c hc).1, (hr c hc).2.1⟩
  · rw [h]
    rintro c ⟨⟩
    rcases he with rfl | rfl <;> decide

theorem fraction?_append (n : Numeral) (hr : EndsNumber r) :
    fraction? (n.fraction ++ (n.exponent ++ r)) = some (n.fraction, n.exponent ++ r) := by
  have hstop := n.head?_exponent_append hr
  rcases n.fraction_cases with h | ⟨ds, ⟨hne, hds⟩, h⟩
  · rw [h, List.nil_append]
    unfold fraction?
    split
    next s he =>
        rw [he] at hstop
        exact absurd rfl (hstop '.' rfl).2
    next => rfl
  · rw [h, List.cons_append, fraction?, digits?_append hne hds fun c hc => (hstop c hc).1]
    rfl

theorem head?_fraction_append (n : Numeral) (hr : EndsNumber r) :
    ∀ c ∈ (n.fraction ++ (n.exponent ++ r)).head?, c.isDigit = false := by
  rcases n.fraction_cases with h | ⟨ds, -, h⟩
  · rw [h]
    exact fun c hc => (n.head?_exponent_append hr c hc).1
  · rw [h]
    rintro c ⟨⟩
    decide

theorem integer?_append (n : Numeral) (hr : ∀ c ∈ r.head?, c.isDigit = false) :
    integer? (n.whole ++ r) = some (n.whole, r) := by
  rcases n.whole_cases with h | ⟨⟨hne, hds⟩, hzero⟩
  · rw [h]
    rfl
  · rw [integer?]
    · exact digits?_append hne hds hr
    · intro s he
      obtain ⟨d, ds, hds'⟩ := List.exists_cons_of_ne_nil hne
      rw [hds', List.cons_append] at he
      rw [hds', (List.cons.inj he).1] at hzero
      exact hzero rfl

theorem unsigned?_append (n : Numeral) (hr : EndsNumber r) :
    unsigned? (n.whole ++ (n.fraction ++ (n.exponent ++ r))) =
      some (n.whole ++ (n.fraction ++ n.exponent), r) := by
  simp only [unsigned?, n.integer?_append (n.head?_fraction_append hr), Option.bind_some,
    n.fraction?_append hr, n.exponent?_append hr, Option.map_some, List.append_assoc]

theorem next?_append (n : Numeral) (hr : EndsNumber r) :
    next? (n.chars ++ r) = some (.number n.literal, r) := by
  have hread := n.unsigned?_append hr
  obtain ⟨d, ds, hds, hd⟩ := n.exists_digit_whole
  rw [literal, chars, List.append_assoc, List.append_assoc, List.append_assoc]
  rcases n.sign_cases with h | h
  · rw [h, List.nil_append, List.nil_append]
    rw [hds, List.cons_append] at hread ⊢
    rw [next?_digit hd, hread]
    rfl
  · rw [h]
    show (number? ('-' :: (n.whole ++ (n.fraction ++ (n.exponent ++ r))))).map _ = _
    rw [number?, hread]
    rfl

end Numeral

end IrSurvey.Json
