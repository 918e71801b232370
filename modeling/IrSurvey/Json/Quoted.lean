import IrSurvey.Text.Digit

/-!
Quoted strings of JSON. Reading goes through code units, because an escape writes half of a
surrogate pair; writing escapes the quote, the backslash and the controls below the space.
-/
namespace IrSurvey.Json.Quoted
open Text

/-- The code unit that a letter after a backslash stands for. -/
def escape? : Char → Option Nat
  | '"' => some 0x22
  | '\\' => some 0x5C
  | '/' => some 0x2F
  | 'b' => some 0x8
  | 'f' => some 0xC
  | 'n' => some 0xA
  | 'r' => some 0xD
  | 't' => some 0x9
  | _ => none

/-- The units up to the closing quote, and the text after it. A character that stands for itself is
one unit, however large; a control never does. -/
def units? : List Char → Option (List Nat × List Char)
  | [] => none
  | '"' :: s => some ([], s)
  | '\\' :: 'u' :: a :: b :: c :: d :: s =>
    match numberOf? 16 [a, b, c, d] with
    | some n => (units? s).map fun (ns, r) => (n :: ns, r)
    | none => none
  | '\\' :: e :: s =>
    match escape? e with
    | some n => (units? s).map fun (ns, r) => (n :: ns, r)
    | none => none
  | c :: s => if c.toNat < 0x20 then none else (units? s).map fun (ns, r) => (c.toNat :: ns, r)

def isHighHalf (n : Nat) : Bool :=
  0xD800 ≤ n && n < 0xDC00

def isLowHalf (n : Nat) : Bool :=
  0xDC00 ≤ n && n < 0xE000

/-- The characters of a row of units, none if half of a surrogate pair stands alone. -/
def chars? : List Nat → Option (List Char)
  | [] => some []
  | [n] => if isHighHalf n || isLowHalf n then none else some [Char.ofNat n]
  | n :: m :: ns =>
    if isHighHalf n && isLowHalf m then
      (chars? ns).map (Char.ofNat (0x10000 + (n - 0xD800) * 0x400 + (m - 0xDC00)) :: ·)
    else if isHighHalf n || isLowHalf n then none
    else (chars? (m :: ns)).map (Char.ofNat n :: ·)

theorem length_units?_lt {s : List Char} {p : List Nat × List Char} (h : units? s = some p) :
    p.2.length < s.length := by
  fun_induction units? s generalizing p with
  | case1 => cases h
  | case2 s => cases h; exact Nat.lt_succ_self _
  | case3 a b c d s n _ ih =>
    obtain ⟨q, hq, rfl⟩ := Option.map_eq_some_iff.1 h
    have := ih hq
    simp only [List.length_cons]
    omega
  | case4 => cases h
  | case5 e s _ n _ ih =>
    obtain ⟨q, hq, rfl⟩ := Option.map_eq_some_iff.1 h
    have := ih hq
    simp only [List.length_cons]
    omega
  | case6 => cases h
  | case7 => cases h
  | case8 c s _ _ _ _ ih =>
    obtain ⟨q, hq, rfl⟩ := Option.map_eq_some_iff.1 h
    have := ih hq
    simp only [List.length_cons]
    omega

def hexDigit (n : Nat) : Char :=
  Nat.digitChar n

/-- A character between the quotes. -/
def encodeChar (c : Char) : List Char :=
  match c with
  | '"' => ['\\', '"']
  | '\\' => ['\\', '\\']
  | '\n' => ['\\', 'n']
  | '\r' => ['\\', 'r']
  | '\t' => ['\\', 't']
  | c =>
    if c.toNat = 0x8 then ['\\', 'b']
    else if c.toNat = 0xC then ['\\', 'f']
    else if c.toNat < 0x20 then ['\\', 'u', '0', '0', hexDigit (c.toNat / 16), hexDigit (c.toNat % 16)]
    else [c]

def encode (s : String) : List Char :=
  '"' :: (s.toList.flatMap encodeChar ++ ['"'])

end IrSurvey.Json.Quoted
