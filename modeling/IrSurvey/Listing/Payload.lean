import IrSurvey.Text.Digit

/-!
Payloads of string literals. A backslash is written twice, any byte may be written as a backslash
and two hexadecimal digits, and every other byte stands for itself.
-/
namespace IrSurvey.Listing.Payload
open Text

/-- The value of a byte that is a hexadecimal digit in ASCII. -/
def hexByte? (b : UInt8) : Option Nat :=
  hexValue? (Char.ofUInt8 b)

/-- The bytes that a payload stands for; none if a backslash starts no escape. -/
def unescape? : List UInt8 → Option (List UInt8)
  | [] => some []
  | 0x5C :: 0x5C :: s => (unescape? s).map (0x5C :: ·)
  | 0x5C :: h :: l :: s =>
    match hexByte? h, hexByte? l with
    | some h, some l => (unescape? s).map (UInt8.ofNat (16 * h + l) :: ·)
    | _, _ => none
  | 0x5C :: _ => none
  | b :: s => (unescape? s).map (b :: ·)

/-- The text of a payload. A payload that is no well-formed UTF-8 text stands for itself. -/
def decode (raw : String) : String :=
  match unescape? raw.toUTF8.toList with
  | some bytes => (String.fromUTF8? ⟨bytes.toArray⟩).getD raw
  | none => raw

end IrSurvey.Listing.Payload
