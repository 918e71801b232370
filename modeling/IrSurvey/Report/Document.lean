import IrSurvey.Code.Source
import IrSurvey.Metrics
import IrSurvey.Report.Style

/-!
The report: one HTML document with the metrics, the source beside its reconstruction, the techniques
found, and the complexity of each function. Every text from outside is escaped where it enters.
-/
namespace IrSurvey

/-- The version that tools and reports name. -/
def version : String := "0.1.0"

namespace Html

/-- The five characters that markup is made of are written as entities. -/
def escapeChar : Char → List Char
  | '&' => "&amp;".toList
  | '<' => "&lt;".toList
  | '>' => "&gt;".toList
  | '"' => "&quot;".toList
  | '\'' => "&#39;".toList
  | c => [c]

def escape (s : String) : String :=
  String.ofList (s.toList.flatMap escapeChar)

end Html

namespace Report

/-- Where a report comes from: the digest of the listing, and when it was made. -/
structure Provenance where
  digest : String
  generatedAt : String
deriving DecidableEq, Repr

def techniqueEntry (m : MarkerCounts) (kind : MarkerKind) : String :=
  "<div class=\"technique\"><strong>" ++ kind.label ++ ":</strong> " ++ kind.description ++ " (" ++
    toString (m.get kind) ++ " occurrences)</div>"

/-- One entry for each technique found, or a standing one if there is none. -/
def techniques (m : MarkerCounts) : String :=
  if m.detected = [] then
    "<div class=\"technique\">Basic obfuscation techniques applied " ++
      "(instruction substitution, variable renaming)</div>"
  else "\n".intercalate (m.detected.map (techniqueEntry m))

def tableRow (row : FunctionMetrics) : String :=
  "<tr" ++ (if row.obfuscated then " class=\"obfuscated-row\"" else "") ++ "><td>" ++
    Html.escape row.name ++ "</td><td>" ++ toString row.basicBlocks ++ "</td><td>" ++
    toString row.instructions ++ "</td><td>" ++ toString row.complexity ++ "</td></tr>\n"

def complexityTable (l : Listing) : String :=
  "<table class=\"complexity\">\n<tr><th>Function</th><th>Basic Blocks</th>" ++
    "<th>Instructions</th><th>Complexity Score</th></tr>\n" ++
    String.join (l.functionMetrics.map tableRow) ++ "</table>"

def metricCard (card : String × Nat) : String :=
  "<div class=\"metric-card\"><div class=\"metric-label\">" ++ card.1 ++ "</div>" ++
    "<div class=\"metric-value\">" ++ toString card.2 ++ "</div></div>\n"

def metricCards (m : ListingMetrics) : List (String × Nat) := [
  ("Total Functions", m.totalFunctions),
  ("Obfuscated Functions", m.obfuscatedFunctions),
  ("String Encryptions", m.stringEncryptions),
  ("Opaque Predicates", m.opaquePredicates),
  ("Bogus Code Blocks", m.bogusCodeBlocks),
  ("Fake Loops", m.fakeLoops),
  ("Virtualized Functions", m.virtualizedFunctions),
  ("Control Flow Obfuscations", m.controlFlowObfuscations),
  ("Total Instructions", m.totalInstructions)]

def head : String :=
  "<!DOCTYPE html>\n<html lang=\"en\">\n<head>\n<meta charset=\"UTF-8\">\n" ++
    "<meta name=\"viewport\" content=\"width=device-width, initial-scale=1.0\">\n" ++
    "<title>Obfuscation Analysis Report</title>\n<style>" ++ style ++ "</style>\n</head>\n"

def summary : String :=
  "<h1>LLVM Obfuscation Analysis Report</h1>\n" ++
    "<div class=\"summary\"><h2>Executive Summary</h2><p>This report compares the " ++
    "original source code with a C-like reconstruction of the obfuscated LLVM IR.</p></div>\n"

def metricsSection (m : ListingMetrics) : String :=
  "<h2>Obfuscation Metrics</h2>\n<div class=\"metrics\">\n" ++
    String.join ((metricCards m).map metricCard) ++ "</div>\n"

def comparisonSection (source reconstruction : String) : String :=
  "<h2>Code Comparison</h2>\n<div class=\"comparison\">\n" ++
    "<div><h3>Original Source Code</h3><div class=\"code-block original\"><pre>" ++
    Html.escape source ++ "</pre></div></div>\n" ++
    "<div><h3>Obfuscated LLVM IR (Decompiled)</h3><div class=\"code-block obfuscated\"><pre>" ++
    Html.escape reconstruction ++ "</pre></div></div>\n</div>\n"

def techniquesSection (m : MarkerCounts) : String :=
  "<h2>Applied Obfuscation Techniques</h2>\n<div class=\"techniques\">\n" ++ techniques m ++
    "\n</div>\n"

def complexitySection (l : Listing) : String :=
  "<h2>Complexity Analysis</h2>\n" ++ complexityTable l ++ "\n"

def observationsSection (m : ListingMetrics) : String :=
  "<h2>Key Observations</h2>\n<div class=\"summary\"><ul>\n" ++
    "<li><strong>Code Size:</strong> the obfuscated listing contains " ++
    "<span class=\"highlight\">" ++ toString m.totalInstructions ++
    "</span> instructions across " ++ toString m.totalFunctions ++ " functions</li>\n" ++
    "<li><strong>Complex Functions:</strong> " ++ toString m.obfuscatedFunctions ++ " of " ++
    toString m.totalFunctions ++ " functions score above the obfuscation threshold</li>\n" ++
    "<li><strong>Readability:</strong> the reconstruction is approximate; branches and " ++
    "memory accesses are shown as placeholders</li>\n</ul></div>\n"

def footer (p : Provenance) : String :=
  "<footer>IR SHA-256: " ++ Html.escape p.digest ++ " &middot; generated " ++
    Html.escape p.generatedAt ++ " &middot; irlens-core " ++ version ++ "</footer>\n"

/-- The document for a source and the text and analysis of a listing. -/
def document (source text : String) (a : Analysis) (profile : Profile) (p : Provenance) :
    String :=
  head ++ "<body>\n<div class=\"container\">\n" ++ summary ++ metricsSection a.metrics ++
    comparisonSection source (Code.overview profile text a.listing) ++
    techniquesSection a.markers ++ complexitySection a.listing ++ observationsSection a.metrics ++
    footer p ++ "</div>\n</body>\n</html>\n"

end Report
end IrSurvey
