import IrSurvey.Exchange.Listing
import IrSurvey.Proofs.Exchange.Record

/-!
Listings in JSON. What is written for a part of a listing is read as the same part, as long as the
positions in it have 64 bits.
-/
namespace IrSurvey

namespace Listing

theorem Parameter.ofJson?_toJson (p : Parameter) : ofJson? p.toJson = some p := by
  have hfields : p.toJson.fields? 2 ["type_raw", "name"] =
      some [some (.string p.type), some (Json.ofOption .string p.name)] :=
    Json.fields?_zip 2 _ [_, _] (by decide) rfl
  rw [ofJson?, hfields]
  simp only [Json.optional?_ofOption]
  rfl

theorem Parameter.plain_toJson (p : Parameter) : p.toJson.Plain := by
  refine Json.plain_zip ["type_raw", "name"] [_, _] ?_
  simp only [List.forall_mem_cons]
  exact ⟨.string p.type, Json.plain_ofOption p.name, nofun⟩

theorem BlockLabel.ofJson?_toJson {l : BlockLabel} (h : l.position < UInt64.size) :
    ofJson? l.toJson = some l := by
  have hfields : l.toJson.fields? 2 ["label", "position"] =
      some [some (.string l.label), some (.ofNat l.position)] :=
    Json.fields?_zip 2 _ [_, _] (by decide) rfl
  rw [ofJson?, hfields]
  simp only [Json.word?_ofNat h]
  rfl

theorem BlockLabel.plain_toJson (l : BlockLabel) : l.toJson.Plain := by
  refine Json.plain_zip ["label", "position"] [_, _] ?_
  simp only [List.forall_mem_cons]
  exact ⟨.string l.label, Json.plain_ofNat l.position, nofun⟩

theorem Function.ofJson?_toJson {f : Function} (h : ∀ l ∈ f.labels, l.position < UInt64.size) :
    ofJson? f.toJson = some f := by
  have hfields : f.toJson.fields? 5
      ["name", "return_type_raw", "parameters", "instructions", "block_labels"] =
      some [some (.string f.name), some (.string f.returnType),
        some (.array (f.parameters.map Parameter.toJson)),
        some (.array (f.instructions.map .string)),
        some (.array (f.labels.map BlockLabel.toJson))] :=
    Json.fields?_zip 5 _ [_, _, _, _, _] (by decide) rfl
  have hparameters : (Json.array (f.parameters.map Parameter.toJson)).list? Parameter.ofJson? =
      some f.parameters :=
    Json.list?_map fun p _ => p.ofJson?_toJson
  have hinstructions : (Json.array (f.instructions.map .string)).list? Json.string? =
      some f.instructions :=
    Json.list?_map fun _ _ => rfl
  have hlabels : (Json.array (f.labels.map BlockLabel.toJson)).list? BlockLabel.ofJson? =
      some f.labels :=
    Json.list?_map fun l hl => BlockLabel.ofJson?_toJson (h l hl)
  rw [ofJson?, hfields]
  simp only [hparameters, hinstructions, hlabels]
  rfl

theorem Function.plain_toJson (f : Function) : f.toJson.Plain := by
  refine Json.plain_zip
    ["name", "return_type_raw", "parameters", "instructions", "block_labels"] [_, _, _, _, _] ?_
  simp only [List.forall_mem_cons]
  exact ⟨.string f.name, .string f.returnType, Json.plain_map fun p _ => p.plain_toJson,
    Json.plain_map fun code _ => .string code, Json.plain_map fun l _ => l.plain_toJson, nofun⟩

theorem GlobalKind.ofJson?_keyword (kind : GlobalKind) :
    ofJson? (.string kind.keyword) = some kind := by
  cases kind <;> rfl

theorem Global.ofJson?_toJson (g : Global) : ofJson? g.toJson = some g := by
  have hfields : g.toJson.fields? 3 ["name", "kind", "declaration_tail"] =
      some [some (.string g.name), some (.string g.kind.keyword), some (.string g.tail)] :=
    Json.fields?_zip 3 _ [_, _, _] (by decide) rfl
  rw [ofJson?, hfields]
  simp only [GlobalKind.ofJson?_keyword]
  rfl

theorem Global.plain_toJson (g : Global) : g.toJson.Plain := by
  refine Json.plain_zip ["name", "kind", "declaration_tail"] [_, _, _] ?_
  simp only [List.forall_mem_cons]
  exact ⟨.string g.name, .string g.kind.keyword, .string g.tail, nofun⟩

theorem StringConstant.ofJson?_toJson (s : StringConstant) : ofJson? s.toJson = some s := by
  have hfields : s.toJson.fields? 3 ["name", "raw", "decoded_value"] =
      some [some (Json.ofOption .string s.name), some (.string s.raw),
        some (.string s.decoded)] :=
    Json.fields?_zip 3 _ [_, _, _] (by decide) rfl
  rw [ofJson?, hfields]
  simp only [Json.optional?_ofOption]
  rfl

theorem StringConstant.plain_toJson (s : StringConstant) : s.toJson.Plain := by
  refine Json.plain_zip ["name", "raw", "decoded_value"] [_, _, _] ?_
  simp only [List.forall_mem_cons]
  exact ⟨Json.plain_ofOption s.name, .string s.raw, .string s.decoded, nofun⟩

theorem ofJson?_toJson {l : Listing}
    (h : ∀ f ∈ l.functions, ∀ label ∈ f.labels, label.position < UInt64.size) :
    ofJson? l.toJson = some l := by
  have hfields : l.toJson.fields? 3 ["functions", "globals", "strings"] =
      some [some (.array (l.functions.map Function.toJson)),
        some (.array (l.globals.map Global.toJson)),
        some (.array (l.strings.map StringConstant.toJson))] :=
    Json.fields?_zip 3 _ [_, _, _] (by decide) rfl
  have hfunctions : (Json.array (l.functions.map Function.toJson)).list? Function.ofJson? =
      some l.functions :=
    Json.list?_map fun f hf => Function.ofJson?_toJson (h f hf)
  have hglobals : (Json.array (l.globals.map Global.toJson)).list? Global.ofJson? =
      some l.globals :=
    Json.list?_map fun g _ => g.ofJson?_toJson
  have hstrings : (Json.array (l.strings.map StringConstant.toJson)).list?
      StringConstant.ofJson? = some l.strings :=
    Json.list?_map fun s _ => s.ofJson?_toJson
  rw [ofJson?, hfields]
  simp only [hfunctions, hglobals, hstrings]
  rfl

theorem plain_toJson (l : Listing) : l.toJson.Plain := by
  refine Json.plain_zip ["functions", "globals", "strings"] [_, _, _] ?_
  simp only [List.forall_mem_cons]
  exact ⟨Json.plain_map fun f _ => f.plain_toJson, Json.plain_map fun g _ => g.plain_toJson,
    Json.plain_map fun s _ => s.plain_toJson, nofun⟩

end Listing
end IrSurvey
