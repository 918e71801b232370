/-!
Settings: how much of a function body is shown, for reports and for source listings.
-/
namespace IrSurvey

/-- A limit on the lines of a body, and whether block labels are among them. -/
structure Profile where
  maxLines : Nat
  showLabels : Bool
deriving DecidableEq, Repr

namespace Profile

def report : Profile := { maxLines := 20, showLabels := false }

def source : Profile := { maxLines := 30, showLabels := true }

end Profile

/-- The profiles of the two documents. A section that is not set keeps its default. -/
structure Settings where
  report : Profile := .report
  source : Profile := .source
deriving DecidableEq, Repr

end IrSurvey
