import IrSurvey.Instruction.Basic
import IrSurvey.Instruction.Operand

/-!
How a single instruction is shown: as a statement, as a comment, or not at all. The opcode decides
which, together with the shape of the operands.
-/
namespace IrSurvey
open Text

/-- What is shown for an instruction. -/
inductive Lowered
  | statement (text : String)
  | comment (text : String)
  | elided
deriving DecidableEq, Repr

def Lowered.line? : Lowered → Option String
  | .statement text => some text
  | .comment text => some ("// " ++ text)
  | .elided => none

/-- The opcodes that are shown. -/
inductive Opcode
  | call
  | ret
  | arithmetic (sign : String)
  | compare
  | branch
  | memory
  | alloca
deriving DecidableEq, Repr

def Opcode.ofWord? (w : List Char) : Option Opcode :=
  match String.ofList w with
  | "call" => some .call
  | "ret" => some .ret
  | "add" => some (.arithmetic "+")
  | "sub" => some (.arithmetic "-")
  | "mul" => some (.arithmetic "*")
  | "udiv" => some (.arithmetic "/")
  | "sdiv" => some (.arithmetic "/")
  | "icmp" => some .compare
  | "br" => some .branch
  | "load" => some .memory
  | "store" => some .memory
  | "alloca" => some .alloca
  | _ => none

/-- The comparisons that are shown, by predicate. -/
def comparison? (predicate : List Char) : Option String :=
  match String.ofList predicate with
  | "eq" => some "=="
  | "ne" => some "!="
  | "ult" => some "<"
  | "ugt" => some ">"
  | _ => none

namespace Instruction

/-- The first symbol that a parenthesis follows, and the text after the parenthesis. -/
def callee? : List Char → Option (List Char × List Char)
  | [] => none
  | c :: s =>
    match if c = '@' then applied? s else none with
    | some p => some p
    | none => callee? s

/-- Intrinsics are never shown. -/
def isIntrinsic (name : List Char) : Bool :=
  "llvm.".toList.isPrefixOf name

/-- A call of a symbol. An argument list that never closes shows no arguments. -/
def lowerCall (operands : List Char) : Lowered :=
  match callee? operands with
  | none => .elided
  | some (name, s) =>
    if isIntrinsic name then .elided
    else
      let args := (splitClose? '(' ')' s).elim [] fun p => Operand.arguments p.1
      .statement (String.ofList (name ++ '(' :: args ++ ");".toList))

/-- Words that stand for no value at all. -/
def isNoValue (w : List Char) : Bool :=
  w = "undef".toList || w = "poison".toList || w = "void".toList

/-- A return of the first operand. -/
def lowerReturn (operands : List Char) : Lowered :=
  let operand := (splitTopLevel operands).head?.getD []
  if trim operands = [] ∨ isNoValue (lastWord operand) then .statement "return;"
  else .statement (String.ofList ("return ".toList ++ Operand.value operand ++ [';']))

/-- The first two operands around a sign; flags and the type stand before the first. -/
def lowerBinary (sign : String) (operands : List Char) : Lowered :=
  match splitTopLevel operands with
  | left :: right :: _ =>
    .comment (String.ofList (Operand.value left) ++ " " ++ sign ++ " " ++
      String.ofList (Operand.value right))
  | _ => .elided

def lowerCompare (operands : List Char) : Lowered :=
  match comparison? (firstWord operands).1 with
  | some sign => lowerBinary sign (firstWord operands).2
  | none => .elided

def lower (i : Instruction) : Lowered :=
  match Opcode.ofWord? i.opcode with
  | some .call => lowerCall i.operands
  | some .ret => lowerReturn i.operands
  | some (.arithmetic sign) => lowerBinary sign i.operands
  | some .compare => lowerCompare i.operands
  | some .branch => .comment "branch instruction"
  | some .memory => .comment "memory operation"
  | some .alloca => .comment "local variable"
  | none => .elided

/-- What is shown for a line of code. -/
def lowerLine (line : String) : Lowered :=
  (ofLine line.toList).lower

end Instruction
end IrSurvey
