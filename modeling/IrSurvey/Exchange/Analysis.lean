import IrSurvey.Exchange.Listing
import IrSurvey.Metrics

/-!
Analyses in JSON: a listing with its marker counts and metrics. Only recorded counts are written.
-/
namespace IrSurvey

def MarkerCounts.toJson (m : MarkerCounts) : Json :=
  .object [("counts", .object (MarkerKind.all.filterMap fun kind =>
    (m.recorded kind).map fun n => (kind.key, .ofNat n)))]

def MarkerCounts.ofJson? (v : Json) : Option MarkerCounts :=
  match v.fields? 1 ["counts"] with
  | some [some (.object members)] => do
    let counts ← members.mapM fun (key, n) => do some (← MarkerKind.ofKey? key, ← n.word?)
    some { recorded := fun kind => (counts.reverse.find? (·.1 = kind)).map Prod.snd }
  | _ => none

namespace ListingMetrics

/-- The names of the totals in data, in the order of the fields. -/
def keys : List String := [
  "total_functions", "obfuscated_functions", "total_instructions", "obfuscated_instructions",
  "string_encryptions", "opaque_predicates", "bogus_code_blocks", "fake_loops",
  "virtualized_functions", "control_flow_obfuscations"]

def totals (m : ListingMetrics) : List Nat := [
  m.totalFunctions, m.obfuscatedFunctions, m.totalInstructions, m.obfuscatedInstructions,
  m.stringEncryptions, m.opaquePredicates, m.bogusCodeBlocks, m.fakeLoops,
  m.virtualizedFunctions, m.controlFlowObfuscations]

def ofTotals? : List Nat → Option ListingMetrics
  | [a, b, c, d, e, f, g, h, i, j] => some ⟨a, b, c, d, e, f, g, h, i, j⟩
  | _ => none

def toJson (m : ListingMetrics) : Json :=
  .object (keys.zip (m.totals.map .ofNat))

def ofJson? (v : Json) : Option ListingMetrics := do
  let fields ← v.fields? keys.length keys
  ofTotals? (← fields.mapM fun field => field.bind Json.word?)

end ListingMetrics

def Analysis.toJson (a : Analysis) : Json :=
  .object [
    ("listing", a.listing.toJson),
    ("markers", a.markers.toJson),
    ("metrics", a.metrics.toJson)]

def Analysis.ofJson? (v : Json) : Option Analysis :=
  match v.fields? 3 ["listing", "markers", "metrics"] with
  | some [some listing, some markers, some metrics] => do
    some {
      listing := ← Listing.ofJson? listing
      markers := ← MarkerCounts.ofJson? markers
      metrics := ← ListingMetrics.ofJson? metrics }
  | _ => none

end IrSurvey
