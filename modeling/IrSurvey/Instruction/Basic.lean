import IrSurvey.Text.Symbol

/-!
Instructions: an opcode and the text of its operands, without the name that receives the result and
without the marks of a call site.
-/
namespace IrSurvey
open Text

structure Instruction where
  opcode : List Char
  operands : List Char
deriving DecidableEq, Repr

namespace Instruction

/-- A trimmed line without an assignment to a local value at its front. -/
def stripTemporary (line : List Char) : List Char :=
  match trim line with
  | '%' :: s =>
    match trimStart (s.dropWhile isLocalChar) with
    | '=' :: r => if s.takeWhile isLocalChar = [] then trim line else trimStart r
    | _ => trim line
  | _ => trim line

def isCallMarker (w : List Char) : Bool :=
  w = "tail".toList || w = "musttail".toList || w = "notail".toList

/-- The instruction that starts at the first word that marks no call site. -/
def ofCode (s : List Char) : Instruction :=
  if _h : isCallMarker (firstWord s).1 then ofCode (firstWord s).2
  else { opcode := (firstWord s).1, operands := (firstWord s).2 }
termination_by s.length
decreasing_by
  refine length_firstWord_lt fun he => ?_
  rw [he] at _h
  exact absurd _h (by decide)

def ofLine (line : List Char) : Instruction :=
  ofCode (stripTemporary line)

end Instruction
end IrSurvey
