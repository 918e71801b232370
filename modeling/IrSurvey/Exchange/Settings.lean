import IrSurvey.Exchange.Record
import IrSurvey.Settings.Basic
import IrSurvey.Yaml.Document
import IrSurvey.Yaml.Value

/-!
Settings in JSON and in YAML. A section that is given is complete; one that is left out keeps its
default. Keys that no one asks for pass; a known key must not be repeated.
-/
namespace IrSurvey

namespace Profile

def toJson (p : Profile) : Json :=
  .object [("max_lines", .ofNat p.maxLines), ("emit_block_labels", .bool p.showLabels)]

def ofJson? (v : Json) : Option Profile :=
  match v.fields? 2 ["max_lines", "emit_block_labels"] with
  | some [some maxLines, some showLabels] => do
    some { maxLines := ← maxLines.word?, showLabels := ← showLabels.bool? }
  | _ => none

/-- A section of a document. -/
def ofYaml? (document node : Yaml.Node) : Option Profile :=
  match document.fields? ["max_lines", "emit_block_labels"] node with
  | some [some maxLines, some showLabels] => do
    some { maxLines := ← document.word? maxLines, showLabels := ← document.bool? showLabels }
  | _ => none

end Profile

namespace Settings

def toJson (s : Settings) : Json :=
  .object [("report", s.report.toJson), ("source", s.source.toJson)]

/-- Sections as they are given, with the default for one that is not. -/
def ofSections? {α : Type} (profile? : α → Option Profile) (report source : Option α) :
    Option Settings := do
  some {
    report := ← report.elim (some .report) profile?
    source := ← source.elim (some .source) profile? }

def ofJson? (v : Json) : Option Settings :=
  match v.fields? 0 ["report", "source"] with
  | some [report, source] => ofSections? Profile.ofJson? report source
  | _ => none

def ofYaml? (document : Yaml.Node) : Option Settings :=
  match document.fields? ["report", "source"] document with
  | some [report, source] => ofSections? (Profile.ofYaml? document) report source
  | _ => none

end Settings
end IrSurvey
