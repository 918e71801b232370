import IrSurvey.Settings.Load

/-!
How a run fails, and how its causes are told: one alone is indented, several are numbered.
-/
namespace IrSurvey

/-- A failed run; `what` names the file in the words of the tool. -/
inductive Failure
  | settings (path : String) (cause : Settings.LoadError)
  | unreadable (what path : String) (cause : FileError)
  | unwritable (what path : String) (cause : FileError)
deriving DecidableEq, Repr

namespace Failure

def headline : Failure → String
  | .settings .. => "Failed to load tool config"
  | .unreadable what path _ => "Failed to read " ++ what ++ " at " ++ path
  | .unwritable what path _ => "Failed to write " ++ what ++ " at " ++ path

/-- What is told of a malformed document. The words are of the tool's own and the same for every
fault, where the parser of a format would name the fault and its place. -/
def noSettings : String := "no settings in this form"

/-- The causes from the nearest to the deepest. -/
def causes : Failure → List String
  | .settings path (.unreadable cause) =>
    [(Settings.LoadError.unreadable cause).message path, cause.message]
  | .settings path (.malformed format) =>
    [(Settings.LoadError.malformed format).message path ++ ": " ++ noSettings, noSettings]
  | .settings path .unsupportedFormat => [Settings.LoadError.unsupportedFormat.message path]
  | .unreadable _ _ cause => [cause.message]
  | .unwritable _ _ cause => [cause.message]

/-- A text whose lines are indented, the first by what stands in front of it. -/
def indented (first later text : String) : String :=
  first ++ ("\n" ++ later).intercalate ((text.toList.splitOn '\n').map String.ofList)

def causeLines : List String → List String
  | [cause] => [indented "    " "    " cause]
  | causes => causes.zipIdx.map fun (cause, i) =>
    indented ("    " ++ toString i ++ ": ") "       " cause

/-- What a failed run says. -/
def render (f : Failure) : String :=
  "Error: " ++ f.headline ++ "\n\nCaused by:\n" ++ "\n".intercalate (causeLines f.causes) ++ "\n"

end Failure
end IrSurvey
