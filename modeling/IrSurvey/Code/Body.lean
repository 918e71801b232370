import IrSurvey.Instruction.Lowering
import IrSurvey.Listing.Basic
import IrSurvey.Settings.Basic

/-!
Function bodies as they are shown: the lines of the instructions with the labels in their places,
cut after the most lines that a profile allows.
-/
namespace IrSurvey.Code
open Listing (BlockLabel Function)

def labelLine (digits : String) : String :=
  "// Basic block " ++ digits ++ ":"

def labelLines (profile : Profile) (labels : List BlockLabel) : List String :=
  if profile.showLabels then labels.map fun l => labelLine l.label else []

/-- The lines of the instructions from index `n` on. Before each stand the labels that are due, in
their order: a label waits for those before it. -/
def linesFrom (profile : Profile) (n : Nat) : List String → List BlockLabel → List String
  | [], labels => labelLines profile labels
  | code :: rest, labels =>
    labelLines profile (labels.takeWhile (·.position ≤ n)) ++
      (Instruction.lowerLine code).line?.toList ++
      linesFrom profile (n + 1) rest (labels.dropWhile (·.position ≤ n))

def omittedLine (n : Nat) : String :=
  "// ... " ++ toString n ++ " more lines omitted ..."

/-- At most `most` lines, and one more that counts those left out. -/
def cap (most : Nat) (lines : List String) : List String :=
  if most < lines.length then lines.take most ++ [omittedLine (lines.length - most)] else lines

def bodyLines (profile : Profile) (f : Function) : List String :=
  cap profile.maxLines (linesFrom profile 0 f.instructions f.labels)

end IrSurvey.Code
