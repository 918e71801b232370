import IrSurvey.Proofs.Files.Directory
import IrSurvey.Proofs.Settings.Text

/-!
Loading settings. The extension decides before the file is read, the file before its text is
parsed, and a text gives all of its settings or none. What a content describes is found in each of
its texts, in both formats.
-/
namespace IrSurvey.Settings
variable {text : String} {format : Format}

/-- The extension of a path in small letters. -/
def lowerExtension? (path : String) : Option String :=
  (Path.extension? path).map fun ext => String.ofList (ext.toList.map Char.toLower)

def Format.extensions : Format → List String
  | .json => ["json"]
  | .yaml => ["yaml", "yml"]

/-- The extension of a path names a format. -/
def Format.Names (path : String) (format : Format) : Prop :=
  ∃ ext ∈ format.extensions, lowerExtension? path = some ext

theorem ofPath?_eq_some_iff {path : String} :
    Format.ofPath? path = some format ↔ format.Names path := by
  have hpath : Format.ofPath? path = (lowerExtension? path).bind Format.ofExtension? := by
    rw [Format.ofPath?, lowerExtension?, Option.bind_map]
    rfl
  rw [hpath, Option.bind_eq_some_iff]
  constructor
  · rintro ⟨ext, hext, hformat⟩
    refine ⟨ext, ?_, hext⟩
    unfold Format.ofExtension? at hformat
    split at hformat <;> cases hformat <;> decide
  · rintro ⟨ext, hmem, hext⟩
    refine ⟨ext, hext, ?_⟩
    cases format with
    | json =>
        obtain rfl := List.mem_singleton.1 hmem
        rfl
    | yaml =>
        simp only [Format.extensions, List.mem_cons, List.not_mem_nil, or_false] at hmem
        rcases hmem with rfl | rfl <;> rfl

/-- What stands in a readable file decides alone, and there is no middle between settings and an
error. -/
theorem load_of_text {read : ReadFile} {path : String} (hformat : format.Names path)
    (htext : read.text path = .ok text) :
    load read path = (format.settings? text).elim (.error (.malformed format)) .ok := by
  rw [load, ofPath?_eq_some_iff.2 hformat]
  simp only [htext]
  cases format.settings? text <;> rfl

/-- Loading in all its stages, and the settings of a content in any of its texts. -/
theorem load_stages (read : ReadFile) (path : String) :
    ((∀ format : Format, ¬ format.Names path) → load read path = .error .unsupportedFormat) ∧
    ∀ format : Format, format.Names path →
      (∀ cause, read path = .error cause → load read path = .error (.unreadable cause)) ∧
      (∀ bytes, read path = .ok bytes → String.fromUTF8? (ByteArray.mk bytes.toArray) = none →
        load read path = .error (.unreadable .notText)) ∧
      ∀ text : String, read path = .ok text.toUTF8.toList →
        (format.settings? text = none ↔ load read path = .error (.malformed format)) ∧
        (∀ settings, format.settings? text = some settings ↔ load read path = .ok settings) ∧
        ∀ c : Content, format.Writes c text →
          (∀ report source, c.Describes report source →
            load read path =
              .ok { report := report.getD .report, source := source.getD .source }) ∧
          (c.Faulty → load read path = .error (.malformed format)) := by
  refine ⟨fun hnone => ?_, fun format hformat => ⟨fun cause hread => ?_,
    fun bytes hread hbytes => ?_, fun text hread => ?_⟩⟩
  · have hpath : Format.ofPath? path = none :=
      Option.eq_none_iff_forall_ne_some.2 fun format h => hnone format (ofPath?_eq_some_iff.1 h)
    rw [load, hpath]
  · have htext : read.text path = .error cause := by
      rw [ReadFile.text, hread]
    rw [load, ofPath?_eq_some_iff.2 hformat]
    simp only [htext]
  · have htext : read.text path = .error .notText := by
      rw [ReadFile.text, hread]
      simp only [hbytes]
    rw [load, ofPath?_eq_some_iff.2 hformat]
    simp only [htext]
  · have hload := load_of_text hformat (ReadFile.text_eq_ok_iff.2 hread)
    refine ⟨?_, fun settings => ?_,
      fun c hc => ⟨fun report source hdescribes => ?_, fun hfaulty => ?_⟩⟩
    · rw [hload]
      cases format.settings? text with
      | none => exact ⟨fun _ => rfl, fun _ => rfl⟩
      | some s => exact ⟨nofun, nofun⟩
    · rw [hload]
      cases format.settings? text with
      | none => exact ⟨nofun, nofun⟩
      | some s => exact ⟨fun h => congrArg Except.ok (Option.some.inj h),
          fun h => congrArg some (Except.ok.inj h)⟩
    · rw [hload, hc.settings?, hdescribes.ofJson?]
      rfl
    · rw [hload, hc.settings?, hfaulty.ofJson?]
      rfl

/-- One text under every path. -/
def holding (text : String) : ReadFile :=
  fun _ => .ok text.toUTF8.toList

/-- A file at each of the stages, and one content in both formats. -/
theorem load_stages_files :
    load (fun _ => .error .notFound) "tool.toml" = .error .unsupportedFormat ∧
    load (fun _ => .error .notFound) "tool.json" = .error (.unreadable .notFound) ∧
    load (fun _ => .ok [0xff]) "tool.yaml" = .error (.unreadable .notText) ∧
    load (holding "\x7b\"x\":1,\"source\":\x7b\"emit_block_labels\":false,\"max_lines\":12\x7d\x7d")
      "tool.json" = .ok { source := shortSource } ∧
    load (holding "x: 1\nsource: # shown\n  'emit_block_labels': false\n  max_lines: 12\n")
      "tool.YML" = .ok { source := shortSource } ∧
    load (holding "\x7b\"report\":\x7b\"max_lines\":1\x7d\x7d") "tool.json" =
      .error (.malformed .json) := by
  have htoml : ∀ format : Format, ¬ format.Names "tool.toml" := by
    rintro format ⟨ext, hext, hname⟩
    have hextension : lowerExtension? "tool.toml" = some "toml" := by decide
    obtain rfl := Option.some.inj (hextension.symm.trans hname)
    revert hext
    cases format <;> decide
  have hjson : Format.json.Names "tool.json" := ⟨"json", by decide, by decide⟩
  have hyaml : Format.yaml.Names "tool.yaml" := ⟨"yaml", by decide, by decide⟩
  have hyml : Format.yaml.Names "tool.YML" := ⟨"yml", by decide, by decide⟩
  have hbytes : String.fromUTF8? (ByteArray.mk [0xff].toArray) = none := by decide +kernel
  have hcontent : ∀ {format : Format} {path text : String} {c : Content}, format.Names path →
      format.Writes c text →
      (∀ report source, c.Describes report source → load (holding text) path =
        .ok { report := report.getD .report, source := source.getD .source }) ∧
      (c.Faulty → load (holding text) path = .error (.malformed format)) :=
    fun hname hwrites => (((load_stages (holding _) _).2 _ hname).2.2 _ rfl).2.2 _ hwrites
  refine ⟨(load_stages _ "tool.toml").1 htoml, ?_, ?_, ?_, ?_, ?_⟩
  · obtain ⟨hmissing, -⟩ := (load_stages (fun _ => .error .notFound) "tool.json").2 .json hjson
    exact hmissing .notFound rfl
  · obtain ⟨-, hbroken, -⟩ := (load_stages (fun _ => .ok [0xff]) "tool.yaml").2 .yaml hyaml
    exact hbroken [0xff] rfl hbytes
  · exact (hcontent hjson writes_json_shortContent).1 _ _ shortContent_describes
  · exact (hcontent hyml writes_yaml_shortContent).1 _ _ shortContent_describes
  · exact (hcontent hjson writes_json_partContent).2 partContent_faulty

end IrSurvey.Settings
