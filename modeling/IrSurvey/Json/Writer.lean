import IrSurvey.Json.Basic
import IrSurvey.Json.Token

/-!
Writing JSON values: without any space, and spread over lines with an indent of two spaces.
-/
namespace IrSurvey.Json

mutual

/-- The tokens of a value. -/
def tokens : Json → List Token
  | .null => [.null]
  | .bool b => [.bool b]
  | .number literal => [.number literal]
  | .string s => [.string (some s)]
  | .unpaired => [.string none]
  | .array [] => [.openArray, .closeArray]
  | .array (v :: vs) => .openArray :: (tokens v ++ itemTokens vs)
  | .object [] => [.openObject, .closeObject]
  | .object (m :: ms) => .openObject :: .string (some m.1) :: .colon :: (tokens m.2 ++ memberTokens ms)

/-- The tokens of the items after the first, and of the end of their array. -/
def itemTokens : List Json → List Token
  | [] => [.closeArray]
  | v :: vs => .comma :: (tokens v ++ itemTokens vs)

/-- The tokens of the members after the first, and of the end of their object. -/
def memberTokens : List (String × Json) → List Token
  | [] => [.closeObject]
  | m :: ms => .comma :: .string (some m.1) :: .colon :: (tokens m.2 ++ memberTokens ms)

end

/-- The text of a value without spaces. -/
def render (v : Json) : String :=
  String.ofList ((tokens v).flatMap Token.spell)

/-- The start of a line at some depth. -/
def newLine (depth : Nat) : List Char :=
  '\n' :: List.replicate (2 * depth) ' '

mutual

/-- The text of a value whose parts stand on lines of their own, one step deeper. -/
def spread (depth : Nat) : Json → List Char
  | .null => Token.null.spell
  | .bool b => (Token.bool b).spell
  | .number literal => (Token.number literal).spell
  | .string s => (Token.string (some s)).spell
  | .unpaired => (Token.string none).spell
  | .array [] => "[]".toList
  | .array (v :: vs) => '[' :: (newLine (depth + 1) ++ spread (depth + 1) v ++ spreadItems depth vs)
  | .object [] => "\x7b\x7d".toList
  | .object (m :: ms) =>
    '\x7b' :: (newLine (depth + 1) ++ Quoted.encode m.1 ++ ": ".toList ++ spread (depth + 1) m.2 ++
      spreadMembers depth ms)

def spreadItems (depth : Nat) : List Json → List Char
  | [] => newLine depth ++ [']']
  | v :: vs => ',' :: (newLine (depth + 1) ++ spread (depth + 1) v ++ spreadItems depth vs)

def spreadMembers (depth : Nat) : List (String × Json) → List Char
  | [] => newLine depth ++ ['\x7d']
  | m :: ms =>
    ',' :: (newLine (depth + 1) ++ Quoted.encode m.1 ++ ": ".toList ++ spread (depth + 1) m.2 ++
      spreadMembers depth ms)

end

def renderPretty (v : Json) : String :=
  String.ofList (spread 0 v)

end IrSurvey.Json
