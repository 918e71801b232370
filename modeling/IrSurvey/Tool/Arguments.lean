/-!
The two command lines. Arguments are read from left to right, and the first fault, or the first
question about the tool itself, decides.
-/
namespace IrSurvey

/-- The tools: one writes a source listing, the other a report. -/
inductive Tool
  | convert
  | report
deriving DecidableEq, Repr

def Tool.name : Tool → String
  | .convert => "ir-to-source-tool"
  | .report => "report-tool"

/-- How many paths a tool takes. -/
def Tool.arity : Tool → Nat
  | .convert => 2
  | .report => 3

/-- What a tool is to do, by the paths of its files. -/
inductive Job
  | convert (listing output : String)
  | report (source listing output : String) (json : Bool)
deriving DecidableEq, Repr

structure Request where
  job : Job
  config : Option String
deriving DecidableEq, Repr

/-- The files that a job reads. -/
def Job.inputs : Job → List String
  | .convert listing _ => [listing]
  | .report source listing _ _ => [source, listing]

/-- The files that a request reads. -/
def Request.inputs (r : Request) : List String :=
  r.config.toList ++ r.job.inputs

/-- What arguments ask for. -/
inductive Command
  | help
  | version
  | misuse
  | run (r : Request)
deriving DecidableEq, Repr

/-- The arguments that were read so far. -/
structure Given where
  paths : List String := []
  config : Option String := none
  json : Bool := false
deriving DecidableEq, Repr

/-- The job that paths make, none if one is empty or their number is wrong. -/
def Given.job? (tool : Tool) (g : Given) : Option Job :=
  if "" ∈ g.paths then none
  else
    match tool, g.paths with
    | .convert, [listing, output] => some (.convert listing output)
    | .report, [source, listing, output] => some (.report source listing output g.json)
    | _, _ => none

def Given.complete (tool : Tool) (g : Given) : Command :=
  match g.job? tool with
  | some job => .run { job, config := g.config }
  | none => .misuse

namespace Command

/-- An argument that is no value. A hyphen alone is one. -/
def isFlag (arg : String) : Bool :=
  match arg.toList with
  | ['-'] => false
  | '-' :: _ => true
  | _ => false

/-- The value of a long flag that is written with an equals sign. -/
def attached? (flag arg : String) : Option String :=
  ((flag.toList ++ ['=']).isPrefixOf? arg.toList).map String.ofList

/-- What a flag asks that takes no value. Of joined short flags the first decides. -/
def ofFlag (arg : String) : Command :=
  match arg.toList with
  | '-' :: 'V' :: _ => .version
  | '-' :: 'h' :: _ => .help
  | _ => if arg = "--version" then .version else if arg = "--help" then .help else .misuse

/-- The command of the arguments that are left. -/
def parse (tool : Tool) (g : Given) : List String → Command
  | [] => g.complete tool
  | "--" :: args => { g with paths := g.paths ++ args }.complete tool
  | ["--config"] => .misuse
  | "--config" :: value :: args =>
    if isFlag value ∨ value = "" ∨ g.config.isSome then .misuse
    else parse tool { g with config := some value } args
  | arg :: args =>
    match attached? "--config" arg with
    | some value =>
      if value = "" ∨ g.config.isSome then .misuse
      else parse tool { g with config := some value } args
    | none =>
      if arg = "--json" ∧ tool = .report then
        if g.json then .misuse else parse tool { g with json := true } args
      else if isFlag arg then ofFlag arg
      else if arg = "" ∨ g.paths.length = tool.arity then .misuse
      else parse tool { g with paths := g.paths ++ [arg] } args

def ofArguments (tool : Tool) (args : List String) : Command :=
  parse tool {} args

end Command
end IrSurvey
