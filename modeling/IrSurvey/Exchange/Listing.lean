import IrSurvey.Exchange.Record
import IrSurvey.Json.Basic
import IrSurvey.Listing.Basic

/-!
Listings in JSON. What is written is always an object with every field.
-/
namespace IrSurvey

namespace Listing

def Parameter.toJson (p : Parameter) : Json :=
  .object [("type_raw", .string p.type), ("name", Json.ofOption .string p.name)]

def Parameter.ofJson? (v : Json) : Option Parameter :=
  match v.fields? 2 ["type_raw", "name"] with
  | some [some type, name] => do
    some { type := ← type.string?, name := ← Json.optional? Json.string? name }
  | _ => none

def BlockLabel.toJson (l : BlockLabel) : Json :=
  .object [("label", .string l.label), ("position", .ofNat l.position)]

def BlockLabel.ofJson? (v : Json) : Option BlockLabel :=
  match v.fields? 2 ["label", "position"] with
  | some [some label, some position] => do
    some { label := ← label.string?, position := ← position.word? }
  | _ => none

def Function.toJson (f : Function) : Json :=
  .object [
    ("name", .string f.name),
    ("return_type_raw", .string f.returnType),
    ("parameters", .array (f.parameters.map Parameter.toJson)),
    ("instructions", .array (f.instructions.map .string)),
    ("block_labels", .array (f.labels.map BlockLabel.toJson))]

def Function.ofJson? (v : Json) : Option Function :=
  match v.fields? 5
      ["name", "return_type_raw", "parameters", "instructions", "block_labels"] with
  | some [some name, some returnType, some parameters, some instructions, some labels] => do
    some {
      name := ← name.string?
      returnType := ← returnType.string?
      parameters := ← parameters.list? Parameter.ofJson?
      instructions := ← instructions.list? Json.string?
      labels := ← labels.list? BlockLabel.ofJson? }
  | _ => none

def GlobalKind.ofKeyword? : String → Option GlobalKind
  | "global" => some .global
  | "constant" => some .constant
  | _ => none

/-- A kind is its keyword, alone or as the only key of an object with nothing under it. -/
def GlobalKind.ofJson? : Json → Option GlobalKind
  | .string keyword => ofKeyword? keyword
  | .object [(keyword, .null)] => ofKeyword? keyword
  | _ => none

def Global.toJson (g : Global) : Json :=
  .object [
    ("name", .string g.name),
    ("kind", .string g.kind.keyword),
    ("declaration_tail", .string g.tail)]

def Global.ofJson? (v : Json) : Option Global :=
  match v.fields? 3 ["name", "kind", "declaration_tail"] with
  | some [some name, some kind, some tail] => do
    some { name := ← name.string?, kind := ← GlobalKind.ofJson? kind, tail := ← tail.string? }
  | _ => none

def StringConstant.toJson (s : StringConstant) : Json :=
  .object [
    ("name", Json.ofOption .string s.name),
    ("raw", .string s.raw),
    ("decoded_value", .string s.decoded)]

def StringConstant.ofJson? (v : Json) : Option StringConstant :=
  match v.fields? 3 ["name", "raw", "decoded_value"] with
  | some [name, some raw, some decoded] => do
    some {
      name := ← Json.optional? Json.string? name
      raw := ← raw.string?
      decoded := ← decoded.string? }
  | _ => none

end Listing

def Listing.toJson (l : Listing) : Json :=
  .object [
    ("functions", .array (l.functions.map Listing.Function.toJson)),
    ("globals", .array (l.globals.map Listing.Global.toJson)),
    ("strings", .array (l.strings.map Listing.StringConstant.toJson))]

def Listing.ofJson? (v : Json) : Option Listing :=
  match v.fields? 3 ["functions", "globals", "strings"] with
  | some [some functions, some globals, some strings] => do
    some {
      functions := ← functions.list? Listing.Function.ofJson?
      globals := ← globals.list? Listing.Global.ofJson?
      strings := ← strings.list? Listing.StringConstant.ofJson? }
  | _ => none

end IrSurvey
