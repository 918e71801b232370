/-!
Text inside a C string literal. Quotes, backslashes and control characters are escaped.
-/
namespace IrSurvey.CLiteral

/-- The control characters (general category Cc). -/
def isControl (c : Char) : Bool :=
  c.toNat < 0x20 || (0x7F ≤ c.toNat && c.toNat < 0xA0)

/-- The code point in two hexadecimal digits. Every control character has no more. -/
def hexPair (n : Nat) : List Char :=
  [Nat.digitChar (n / 16), Nat.digitChar (n % 16)]

def escapeChar (c : Char) : List Char :=
  match c with
  | '\\' => ['\\', '\\']
  | '"' => ['\\', '"']
  | '\n' => ['\\', 'n']
  | '\r' => ['\\', 'r']
  | '\t' => ['\\', 't']
  | c =>
    if c.toNat = 0 then ['\\', '0']
    else if isControl c then '\\' :: 'x' :: hexPair c.toNat
    else [c]

def escape (s : String) : String :=
  String.ofList (s.toList.flatMap escapeChar)

end IrSurvey.CLiteral
