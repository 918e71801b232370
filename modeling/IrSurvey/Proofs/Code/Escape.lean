import IrSurvey.Code.Source
import IrSurvey.Proofs.Code.Literal

/-!
An escaped text between its quotes. Every character is written in one of three shapes, none of them
the start of another, so the text can be told from its escaped form; no shape holds a control
character, and none holds a quote that a backslash does not take with it. So the quote behind an
escaped text is the one that closes the literal.
-/
namespace IrSurvey.CLiteral
open Text

/-- The character that a letter after a backslash stands for. -/
def letter? : Char → Option Char
  | '\\' => some '\\'
  | '"' => some '"'
  | 'n' => some '\n'
  | 'r' => some '\r'
  | 't' => some '\t'
  | '0' => some '\x00'
  | _ => none

/-- How a character may be written. -/
inductive Shape (c : Char) : List Char → Prop
  | itself : c ≠ '\\' → c ≠ '"' → isControl c = false → Shape c [c]
  | letter {e : Char} : letter? e = some c → Shape c ['\\', e]
  | hex : c.toNat < 256 → Shape c ('\\' :: 'x' :: hexPair c.toNat)

theorem shape_escapeChar (c : Char) : Shape c (escapeChar c) := by
  by_cases hhex : InHex c
  · rw [escapeChar_of_inHex hhex]
    exact .hex hhex.toNat_lt
  by_cases hzero : c.toNat = 0
  · rw [escapeChar_of_toNat_eq_zero hzero]
    obtain rfl : c = '\x00' := by rw [← Char.ofNat_toNat c, hzero]
    exact .letter rfl
  unfold escapeChar
  split
  case h_6 hbackslash hquote hnewline hreturn htab =>
      have hcontrol : ¬ isControl c = true := fun h => hhex ⟨h, hzero, hnewline, hreturn, htab⟩
      rw [if_neg hzero, if_neg hcontrol]
      exact .itself hbackslash hquote (Bool.eq_false_iff.2 hcontrol)
  all_goals exact .letter rfl

/-! ## The first character of an escaped text -/

/-- The character at the front of an escaped text, and the text after it. -/
def front? : List Char → Option (Char × List Char)
  | [] => none
  | '\\' :: 'x' :: a :: b :: s =>
    (numberOf? 16 [a, b]).map fun n => (Char.ofNat n, s)
  | '\\' :: e :: s => (letter? e).map fun c => (c, s)
  | c :: s => some (c, s)

theorem numberOf?_hexPair {n : Nat} (h : n < 256) : numberOf? 16 (hexPair n) = some n := by
  have hhigh : n / 16 < 16 := by omega
  have hlow : n % 16 < 16 := by omega
  have hnumber : hexNumber [.ofLt hhigh, .ofLt hlow] = n := by
    show (0 * 16 + n / 16) * 16 + n % 16 = n
    omega
  have hspell := numberOf?_spell [.ofLt hhigh, .ofLt hlow]
  rwa [hnumber] at hspell

/-- No shape is the start of another: whatever stands behind it, the character is found again. -/
theorem front?_append {c : Char} {w : List Char} (h : Shape c w) (s : List Char) :
    front? (w ++ s) = some (c, s) := by
  cases h with
  | itself hbackslash hquote hcontrol =>
      rw [List.singleton_append, front?]
      · exact fun _ _ _ h _ => hbackslash h
      · exact fun _ _ h _ => hbackslash h
  | @letter e he =>
      have hx : e ≠ 'x' := by
        rintro rfl
        cases he
      rw [List.cons_append, List.singleton_append, front?, he]
      · rfl
      · exact fun _ _ _ h _ => hx h
  | hex hsmall =>
      have hread : front? ('\\' :: 'x' :: (hexPair c.toNat ++ s)) =
          (numberOf? 16 (hexPair c.toNat)).map fun n => (Char.ofNat n, s) := rfl
      rw [List.cons_append, List.cons_append, hread, numberOf?_hexPair hsmall, Option.map_some,
        Char.ofNat_toNat]

theorem flatMap_escapeChar_injective {s t : List Char}
    (h : s.flatMap escapeChar = t.flatMap escapeChar) : s = t := by
  have hnil : ∀ c s, (c :: s).flatMap escapeChar ≠ [] := by
    intro c s he
    have hfront := front?_append (shape_escapeChar c) (s.flatMap escapeChar)
    rw [← List.flatMap_cons, he] at hfront
    cases hfront
  induction s generalizing t with
  | nil =>
      cases t with
      | nil => rfl
      | cons d t => exact absurd h.symm (hnil d t)
  | cons c s ih =>
      cases t with
      | nil => exact absurd h (hnil c s)
      | cons d t =>
          rw [List.flatMap_cons, List.flatMap_cons] at h
          have hfront := front?_append (shape_escapeChar c) (s.flatMap escapeChar)
          rw [h, front?_append (shape_escapeChar d)] at hfront
          obtain ⟨hhead, htail⟩ := Prod.mk.inj (Option.some.inj hfront)
          rw [hhead, ih htail.symm]

/-! ## Control characters and quotes -/

/-- The characters of a number in hexadecimal are letters and digits. -/
theorem plain_of_mem_hexPair {n : Nat} (h : n < 256) {d : Char} (hd : d ∈ hexPair n) :
    isControl d = false ∧ d ≠ '\\' ∧ d ≠ '"' := by
  have hdigit : ∀ k < 16, isControl (Nat.digitChar k) = false ∧ Nat.digitChar k ≠ '\\' ∧
      Nat.digitChar k ≠ '"' := by decide
  have hmap : hexPair n = [n / 16, n % 16].map Nat.digitChar := rfl
  rw [hmap] at hd
  obtain ⟨k, hk, rfl⟩ := List.mem_map.1 hd
  refine hdigit k ?_
  rcases List.mem_cons.1 hk with rfl | hk
  · omega
  · rw [List.mem_singleton.1 hk]
    omega

theorem isControl_of_letter? {c e : Char} (h : letter? e = some c) : isControl e = false := by
  unfold letter? at h
  split at h
  case h_7 => cases h
  all_goals decide

theorem isControl_of_mem {c d : Char} {w : List Char} (h : Shape c w) (hd : d ∈ w) :
    isControl d = false := by
  cases h with
  | itself _ _ hcontrol =>
      rw [List.mem_singleton.1 hd]
      exact hcontrol
  | @letter e he =>
      rcases List.mem_cons.1 hd with rfl | hd
      · decide
      · rw [List.mem_singleton.1 hd]
        exact isControl_of_letter? he
  | hex hsmall =>
      rcases List.mem_cons.1 hd with rfl | hd
      · decide
      rcases List.mem_cons.1 hd with rfl | hd
      · decide
      · exact (plain_of_mem_hexPair hsmall hd).1

/-- The text up to the first quote that no backslash takes with it, and the text after that quote. A
backslash takes the next character with it, whatever that is. -/
def closing? : List Char → Option (List Char × List Char)
  | [] => none
  | '\\' :: c :: s => (closing? s).map fun (t, r) => ('\\' :: c :: t, r)
  | '"' :: s => some ([], s)
  | c :: s => (closing? s).map fun (t, r) => (c :: t, r)

theorem closing?_cons {c : Char} (hbackslash : c ≠ '\\') (hquote : c ≠ '"') (s : List Char) :
    closing? (c :: s) = (closing? s).map fun (t, r) => (c :: t, r) := by
  rw [closing?]
  · exact fun _ _ h _ => hbackslash h
  · exact hquote

theorem closing?_append_of_plain {w : List Char} (h : ∀ c ∈ w, c ≠ '\\' ∧ c ≠ '"')
    (s : List Char) : closing? (w ++ s) = (closing? s).map fun (t, r) => (w ++ t, r) := by
  induction w with
  | nil => simp
  | cons c w ih =>
      obtain ⟨hbackslash, hquote⟩ := h c List.mem_cons_self
      rw [List.cons_append, closing?_cons hbackslash hquote,
        ih fun d hd => h d (List.mem_cons_of_mem c hd), Option.map_map]
      rfl

/-- A quote that closes the literal does not stand in a shape. -/
theorem closing?_append {c : Char} {w : List Char} (h : Shape c w) (s : List Char) :
    closing? (w ++ s) = (closing? s).map fun (t, r) => (w ++ t, r) := by
  cases h with
  | itself hbackslash hquote hcontrol =>
      refine closing?_append_of_plain (fun d hd => ?_) s
      rw [List.mem_singleton.1 hd]
      exact ⟨hbackslash, hquote⟩
  | letter he => rfl
  | hex hsmall =>
      have hpair := closing?_append_of_plain (fun d hd => (plain_of_mem_hexPair hsmall hd).2) s
      rw [List.cons_append, List.cons_append, closing?, hpair, Option.map_map]
      rfl

theorem closing?_flatMap_append (s r : List Char) :
    closing? (s.flatMap escapeChar ++ '"' :: r) = some (s.flatMap escapeChar, r) := by
  induction s with
  | nil => rfl
  | cons c s ih =>
      rw [List.flatMap_cons, List.append_assoc, closing?_append (shape_escapeChar c), ih]
      rfl

/-- Texts that are escaped alike are alike. An escaped text has no control character, and in front
of a quote it is all that stands in the literal, so the line of a string constant shows nothing
behind the literal but its semicolon. -/
theorem escape_unambiguous (s t : String) :
    (escape s = escape t ↔ s = t) ∧
      (escape s).toList.any isControl = false ∧
      (∀ r, closing? ((escape s).toList ++ '"' :: r) = some ((escape s).toList, r)) ∧
      ∀ name raw, ∃ literal,
        (Code.stringLine? { name := some name, raw, decoded := s }).map String.toList =
            some (("// const char* " ++ name ++ " = ").toList ++ '"' :: literal) ∧
          closing? literal = some ((escape s).toList, [';']) := by
  have hclosing : ∀ r, closing? ((escape s).toList ++ '"' :: r) = some ((escape s).toList, r) := by
    intro r
    rw [escape, String.toList_ofList]
    exact closing?_flatMap_append s.toList r
  refine ⟨⟨fun h => ?_, congrArg escape⟩, ?_, hclosing, fun name raw => ?_⟩
  · have hlist : s.toList.flatMap escapeChar = t.toList.flatMap escapeChar := by
      simpa only [escape, String.toList_ofList] using congrArg String.toList h
    exact String.toList_inj.1 (flatMap_escapeChar_injective hlist)
  · rw [escape, String.toList_ofList, List.any_eq_false]
    intro d hd
    obtain ⟨c, -, hc⟩ := List.mem_flatMap.1 hd
    simp [isControl_of_mem (shape_escapeChar c) hc]
  · refine ⟨(escape s).toList ++ '"' :: [';'], ?_, hclosing [';']⟩
    simp [Code.stringLine?]

end IrSurvey.CLiteral
