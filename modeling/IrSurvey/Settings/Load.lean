import IrSurvey.Exchange.Settings
import IrSurvey.Files.Directory
import IrSurvey.Json.Reader

/-!
Loading settings from a file. The extension decides the format, before the file is read.
-/
namespace IrSurvey
namespace Settings

inductive Format
  | json
  | yaml
deriving DecidableEq, Repr

namespace Format

def ofExtension? : String → Option Format
  | "json" => some .json
  | "yaml" => some .yaml
  | "yml" => some .yaml
  | _ => none

/-- The format that the extension of a path names in letters of either case. -/
def ofPath? (path : String) : Option Format :=
  (Path.extension? path).bind fun ext => ofExtension? (String.ofList (ext.toList.map Char.toLower))

def name : Format → String
  | .json => "JSON"
  | .yaml => "YAML"

/-- The settings that a text in some format writes down. -/
def settings? (text : String) : Format → Option Settings
  | .json => (Json.read? text).bind Settings.ofJson?
  | .yaml => (Yaml.Node.read? text).bind Settings.ofYaml?

end Format

/-- Why settings cannot be loaded. -/
inductive LoadError
  | unsupportedFormat
  | unreadable (cause : FileError)
  | malformed (format : Format)
deriving DecidableEq, Repr

def LoadError.message (path : String) : LoadError → String
  | .unsupportedFormat =>
    "Unsupported config format for " ++ path ++ " (expected .json, .yaml or .yml)"
  | .unreadable cause => "Failed to read config file " ++ path ++ ": " ++ cause.message
  | .malformed format => "Failed to parse " ++ format.name ++ " config " ++ path

def load (read : ReadFile) (path : String) : Except LoadError Settings :=
  match Format.ofPath? path with
  | none => .error .unsupportedFormat
  | some format =>
    match read.text path with
    | .error cause => .error (.unreadable cause)
    | .ok text =>
      match format.settings? text with
      | none => .error (.malformed format)
      | some s => .ok s

/-- The settings of a file, or the standard ones without a file. -/
def loadOrDefault (read : ReadFile) : Option String → Except LoadError Settings
  | none => .ok {}
  | some path => load read path

end Settings
end IrSurvey
