import IrSurvey.Code.Source
import IrSurvey.Digest.Sha256
import IrSurvey.Exchange.Analysis
import IrSurvey.Json.Writer
import IrSurvey.Report.Document
import IrSurvey.Tool.Arguments
import IrSurvey.Tool.Failure

/-!
Runs of the tools. A run reads its files, says what it does, and writes one file as its last step,
so that a run that fails has written nothing.
-/
namespace IrSurvey

/-- The file that is left to write, what to call it, and what to say when it is written. -/
structure Draft where
  what : String
  path : String
  content : String
  closing : List String
deriving DecidableEq, Repr

/-- The lines said so far, and the draft or what went wrong. -/
structure Progress where
  said : List String
  result : Except Failure Draft

namespace Progress

/-- A line said before everything else. -/
def say (line : String) (p : Progress) : Progress :=
  { p with said := line :: p.said }

/-- Goes on with the text of a file. -/
def reading (read : ReadFile) (what path : String) (next : String → Progress) : Progress :=
  match read.text path with
  | .error cause => { said := [], result := .error (.unreadable what path cause) }
  | .ok text => next text

def finish (d : Draft) : Progress :=
  { said := [], result := .ok d }

end Progress

namespace Tool
open Progress

/-- The run that turns a listing into source. -/
def convertRun (read : ReadFile) (settings : Settings) (listing output : String) : Progress :=
  say ("Reading LLVM IR from: " ++ listing) <|
  reading read "IR listing" listing fun text =>
  say "Converting IR to C code..." <|
  say ("Writing C code to: " ++ output) <|
  let l := Listing.ofText text
  finish {
    what := "C source"
    path := output
    content := Code.sourceListing settings.source l
    closing := ["Conversion complete: " ++ toString l.functions.length ++ " functions"] }

/-- A line of progress, unless the run answers with data. -/
def note (json : Bool) (line : String) (p : Progress) : Progress :=
  if json then p else p.say line

/-- What a report is followed by: the metrics, or where everything is. -/
def reportClosing (json : Bool) (metrics : ListingMetrics) (source listing output : String) :
    List String :=
  if json then [metrics.toJson.renderPretty]
  else [
    "Report generated: " ++ output,
    "",
    "Analysis complete:",
    "  Original source: " ++ source,
    "  Obfuscated IR: " ++ listing,
    "  Report: " ++ output]

/-- The run that compares a source with a listing. -/
def reportRun (read : ReadFile) (settings : Settings) (generatedAt : String) (json : Bool)
    (source listing output : String) : Progress :=
  reading read "original source" source fun code =>
  note json ("Parsing obfuscated IR: " ++ listing) <|
  reading read "IR listing" listing fun text =>
  note json "Generating analysis report..." <|
  let analysis := Analysis.ofText text
  let digest := Sha256.hexDigest text.toUTF8.toList
  finish {
    what := "report"
    path := output
    content := Report.document code text analysis settings.report { digest, generatedAt }
    closing := reportClosing json analysis.metrics source listing output }

/-- A run up to its last step. -/
def progress (read : ReadFile) (generatedAt : String) (r : Request) : Progress :=
  match Settings.loadOrDefault read r.config with
  | .error cause => { said := [], result := .error (.settings (r.config.getD "") cause) }
  | .ok settings =>
    match r.job with
    | .convert listing output => convertRun read settings listing output
    | .report source listing output json =>
      reportRun read settings generatedAt json source listing output

end Tool

/-- What a run leaves behind. -/
structure Outcome where
  exitCode : Nat
  stdout : String
  stderr : String
  directory : Directory
deriving DecidableEq, Repr

namespace Outcome

def unlines (lines : List String) : String :=
  String.join (lines.map (· ++ "\n"))

def failed (said : List String) (f : Failure) (d : Directory) : Outcome :=
  { exitCode := 1, stdout := unlines said, stderr := f.render, directory := d }

/-- The last step of a run in a directory. -/
def ofProgress (p : Progress) (d : Directory) : Outcome :=
  match p.result with
  | .error f => failed p.said f d
  | .ok draft =>
    match d.write draft.path draft.content.toUTF8.toList with
    | .error cause => failed p.said (.unwritable draft.what draft.path cause) d
    | .ok d =>
      { exitCode := 0, stdout := unlines (p.said ++ draft.closing), stderr := "", directory := d }

end Outcome

namespace Tool

/-- How a tool is called. The words are of the tool's own and the same for a request for help and
for every misuse, where a parser of command lines would explain the options or name the argument at
fault. -/
def usage : Tool → String
  | .convert => "Usage: ir-to-source-tool [--config FILE] <INPUT_IR> <OUTPUT_SOURCE>\n"
  | .report =>
    "Usage: report-tool [--config FILE] [--json] <ORIGINAL_SOURCE> <OBFUSCATED_IR> <OUTPUT_HTML>\n"

def versionLine (tool : Tool) : String :=
  tool.name ++ " " ++ version ++ "\n"

/-- A whole run in a directory. -/
def run (tool : Tool) (args : List String) (generatedAt : String) (d : Directory) : Outcome :=
  match Command.ofArguments tool args with
  | .help => { exitCode := 0, stdout := tool.usage, stderr := "", directory := d }
  | .version => { exitCode := 0, stdout := tool.versionLine, stderr := "", directory := d }
  | .misuse => { exitCode := 2, stdout := "", stderr := tool.usage, directory := d }
  | .run r => Outcome.ofProgress (progress d.read generatedAt r) d

end Tool
end IrSurvey
