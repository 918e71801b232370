import IrSurvey.Marker.Signature

/-!
How often each technique left a mark.
-/
namespace IrSurvey

/-- Counts of marks. A kind without a count has none; a count of zero may be recorded too. -/
@[ext]
structure MarkerCounts where
  recorded : MarkerKind → Option Nat

namespace MarkerCounts

def get (m : MarkerCounts) (kind : MarkerKind) : Nat :=
  (m.recorded kind).getD 0

/-- The kinds with a mark, in the order of reports. -/
def detected (m : MarkerCounts) : List MarkerKind :=
  MarkerKind.all.filter (0 < m.get ·)

def isEmpty (m : MarkerCounts) : Bool :=
  m.detected.isEmpty

/-- The marks of one kind in a text. -/
def countIn (s : List Char) (kind : MarkerKind) : Nat :=
  kind.signature.count s

/-- The marks in a text; only what was found is recorded. -/
def ofText (s : String) : MarkerCounts where
  recorded kind :=
    let n := countIn s.toList kind
    if n = 0 then none else some n

end MarkerCounts
end IrSurvey
