import Mathlib.Data.Set.List
import IrSurvey.Proofs.Listing.Body
import IrSurvey.Proofs.Listing.Table
import IrSurvey.Proofs.Report.Document

/-!
The numbers of a report, counted over the lines of the bodies. Rows, totals and table count the same
lines, and the techniques listed are those whose count is positive.
-/
namespace IrSurvey
open Text

/-! ## Functions and their rows -/

namespace Listing

/-- The functions of a text are made of its definitions one by one. -/
theorem exists_map_ofDefinition (text : String) :
    ∃ ds : List Definition, (∀ d ∈ ds, d ∈ programDefinitions text.toList) ∧
      (ofText text).functions = ds.map Function.ofDefinition := by
  have hrange : (ofText text).functions ∈ Set.range (List.map
      fun d : { d // d ∈ programDefinitions text.toList } => Function.ofDefinition d) := by
    rw [Set.range_list_map]
    intro f hf
    obtain ⟨d, hd, rfl⟩ := exists_definition_of_mem_functions hf
    exact ⟨⟨d, hd⟩, rfl⟩
  obtain ⟨ds, hds⟩ := hrange
  refine ⟨ds.map Subtype.val, ?_, ?_⟩
  · intro d hd
    obtain ⟨e, -, rfl⟩ := List.mem_map.1 hd
    exact e.2
  · rw [← hds, List.map_map]
    rfl

/-- The points of a definition: one for each instruction line and two for each label line. -/
def Definition.score (d : Definition) : Nat :=
  Body.instructionLineCount d.body.toList + 2 * Body.labelLineCount d.body.toList

theorem length_instructions_ofDefinition (d : Definition) :
    (Function.ofDefinition d).instructions.length = Body.instructionLineCount d.body.toList :=
  Body.length_instructions_items d.body.toList

theorem blockCount_ofDefinition (d : Definition) :
    (Function.ofDefinition d).blockCount = Body.labelLineCount d.body.toList :=
  Body.length_labels_items 0 d.body.toList

theorem complexity_ofDefinition (d : Definition) :
    (Function.ofDefinition d).complexity = d.score := by
  rw [Function.complexity, length_instructions_ofDefinition, blockCount_ofDefinition,
    Definition.score]

theorem ofFunction_ofDefinition (d : Definition) :
    FunctionMetrics.ofFunction (Function.ofDefinition d) =
      { name := d.name
        basicBlocks := Body.labelLineCount d.body.toList
        instructions := Body.instructionLineCount d.body.toList
        complexity := d.score
        obfuscated := decide (10 < d.score) } := by
  rw [FunctionMetrics.ofFunction, Function.isObfuscated, length_instructions_ofDefinition,
    blockCount_ofDefinition, complexity_ofDefinition]
  rfl

/-- The totals of a listing are those of its rows. -/
theorem totals_eq_functionMetrics (l : Listing) (m : MarkerCounts) :
    (ListingMetrics.of l m).totalFunctions = l.functionMetrics.length ∧
      (ListingMetrics.of l m).obfuscatedFunctions = l.functionMetrics.countP (·.obfuscated) ∧
      (ListingMetrics.of l m).totalInstructions = (l.functionMetrics.map (·.instructions)).sum := by
  refine ⟨(List.length_map _).symm, ?_, ?_⟩
  · rw [functionMetrics, List.countP_map]
    rfl
  · rw [functionMetrics, List.map_map, List.sum_eq_foldr]
    rfl

end Listing

/-- The count of a technique among the totals. -/
def ListingMetrics.get (m : ListingMetrics) : MarkerKind → Nat
  | .stringEncryption => m.stringEncryptions
  | .opaquePredicate => m.opaquePredicates
  | .bogusCode => m.bogusCodeBlocks
  | .fakeLoop => m.fakeLoops
  | .virtualization => m.virtualizedFunctions
  | .controlFlowFlattening => m.controlFlowObfuscations

theorem ListingMetrics.get_of (l : Listing) (m : MarkerCounts) (kind : MarkerKind) :
    (ListingMetrics.of l m).get kind = m.get kind := by
  cases kind <;> rfl

namespace Report
open Html

/-- The tag opens a row of a table. -/
def isRowTag (tag : String) : Bool :=
  "<tr".toList.isPrefixOf tag.toList

theorem filter_isRowTag_documentTags (flags : List Bool) (kinds : List MarkerKind) :
    (documentTags flags kinds).filter isRowTag = "<tr>" :: flags.map rowTag := by
  have hfront : (headTags ++ ["<body>", "<div class=\"container\">"] ++ summaryTags ++
      metricsTags ++ comparisonTags).filter isRowTag = [] := by
    decide +kernel
  have hentries : (techniqueTags kinds).filter isRowTag = [] := by
    unfold techniqueTags
    split
    next => decide +kernel
    next =>
        have hentry : entryTags.filter isRowTag = [] := by decide +kernel
        rw [List.filter_flatMap, hentry]
        exact List.flatMap_eq_nil_iff.2 fun _ _ => rfl
  have hrows : (flags.flatMap fun flag => rowTag flag :: cellTags).filter isRowTag =
      flags.map rowTag := by
    have hrow : ∀ flag, (rowTag flag :: cellTags).filter isRowTag = [rowTag flag] := by
      decide +kernel
    rw [List.filter_flatMap]
    simp only [hrow]
    exact List.map_eq_flatMap.symm
  have hheading : (["<table class=\"complexity\">", "<tr>", "<th>", "</th>", "<th>", "</th>", "<th>",
      "</th>", "<th>", "</th>", "</tr>"] : List String).filter isRowTag = ["<tr>"] := by
    decide +kernel
  have hend : observationTags.filter isRowTag = [] := by decide +kernel
  unfold documentTags tableTags
  rw [List.filter_append, List.filter_append, List.filter_append, List.filter_append,
    List.filter_append, hfront, hend]
  simp only [List.filter_append, hentries, hheading, hrows]
  simp [isRowTag]

/-! ## Techniques -/

def entryStart (kind : MarkerKind) : String :=
  "<div class=\"technique\"><strong>" ++ kind.label ++ ":</strong>"

/-- The techniques that a list of entries names, line by line. -/
def listedKinds (html : String) : List MarkerKind :=
  (lines html.toList).filterMap fun line =>
    MarkerKind.all.find? fun kind => (entryStart kind).toList.isPrefixOf line

theorem label_unique {kind other : MarkerKind}
    (h : other.label.toList <+: kind.label.toList) : other = kind := by
  have hliteral : ∀ {s t : List Char}, decide (s <+: t) = false →
      ¬ (String.ofList s).toList <+: (String.ofList t).toList := by
    intro s t hst
    rw [String.toList_ofList, String.toList_ofList]
    exact of_decide_eq_false hst
  cases other <;> cases kind <;> first | rfl | exact absurd h (hliteral rfl)

/-- An entry names only one technique. -/
theorem entryStart_unique {kind other : MarkerKind} {line : List Char}
    (h : (entryStart kind).toList <+: line) (hother : (entryStart other).toList <+: line) :
    other = kind := by
  obtain ⟨r, rfl⟩ := h
  unfold entryStart at hother
  simp only [String.toList_append, List.append_assoc] at hother
  rw [List.prefix_append_right_inj] at hother
  have hlabel := (List.prefix_append _ _).trans hother
  rcases List.prefix_or_prefix_of_prefix hlabel (List.prefix_append _ _) with hle | hle
  · exact label_unique hle
  · exact (label_unique hle).symm

theorem find?_entryStart {kind : MarkerKind} {line : List Char}
    (h : (entryStart kind).toList <+: line) :
    (MarkerKind.all.find? fun kind => (entryStart kind).toList.isPrefixOf line) = some kind := by
  have hiff : ∀ other, (entryStart other).toList.isPrefixOf line = decide (other = kind) := by
    intro other
    rw [Bool.eq_iff_iff, List.isPrefixOf_iff_prefix, decide_eq_true_eq]
    constructor
    · exact entryStart_unique h
    · rintro rfl
      exact h
  simp only [hiff]
  cases kind <;> rfl

theorem oneLine_techniqueEntry (m : MarkerCounts) (kind : MarkerKind) :
    OneLine (techniqueEntry m kind) := by
  have htexts : OneLine kind.label ∧ OneLine kind.description := by
    cases kind <;> exact ⟨oneLine_ofList.2 (by decide), oneLine_ofList.2 (by decide)⟩
  exact oneLine_append.2 ⟨oneLine_append.2 ⟨oneLine_append.2 ⟨oneLine_append.2 ⟨oneLine_append.2
    ⟨oneLine_append.2 ⟨by decide, htexts.1⟩, by decide⟩, htexts.2⟩, by decide⟩,
    oneLine_toString _⟩, by decide⟩

theorem entryStart_prefix_techniqueEntry (m : MarkerCounts) (kind : MarkerKind) :
    (entryStart kind).toList <+: (techniqueEntry m kind).toList := by
  have hspace : ":</strong> " = ":</strong>" ++ " " := by decide
  refine ⟨(" " ++ kind.description ++ " (" ++ toString (m.get kind) ++ " occurrences)</div>").toList,
    ?_⟩
  unfold techniqueEntry entryStart
  rw [hspace]
  simp only [String.toList_append, List.append_assoc]

/-- The techniques listed are those found, in the order of all. -/
theorem listedKinds_techniques (m : MarkerCounts) : listedKinds (techniques m) = m.detected := by
  unfold techniques
  split
  next h =>
      rw [h]
      decide +kernel
  next h =>
      have hone : ∀ entry ∈ m.detected.map (techniqueEntry m), OneLine entry := by
        intro entry hentry
        obtain ⟨kind, -, rfl⟩ := List.mem_map.1 hentry
        exact oneLine_techniqueEntry m kind
      have hentry : ∀ kind, (MarkerKind.all.find? fun other =>
          (entryStart other).toList.isPrefixOf (techniqueEntry m kind).toList) = some kind :=
        fun kind => find?_entryStart (entryStart_prefix_techniqueEntry m kind)
      rw [listedKinds, lines_intercalate (by simpa using h), flatMap_lines hone,
        List.filterMap_map, List.filterMap_map]
      simp only [Function.comp_def, hentry]
      exact List.filterMap_some

/-! ## Agreement -/

open Listing in
/-- Every number that is shown for a text is a count over the lines of its bodies or over its marks:
the functions, their rows, the totals, the rows of the table and the techniques listed all agree. -/
theorem numbers_agree (text : String) :
    let a := Analysis.ofText text
    (∃ ds : List Definition, (∀ d ∈ ds, d ∈ programDefinitions text.toList) ∧
      a.listing.functions = ds.map Function.ofDefinition ∧
      (∀ d ∈ ds,
        (Function.ofDefinition d).instructions.length =
            Body.instructionLineCount d.body.toList ∧
          (Function.ofDefinition d).blockCount = Body.labelLineCount d.body.toList ∧
          (Function.ofDefinition d).complexity =
            Body.instructionLineCount d.body.toList + 2 * Body.labelLineCount d.body.toList) ∧
      a.listing.functionMetrics = ds.map (fun d =>
        { name := d.name
          basicBlocks := Body.labelLineCount d.body.toList
          instructions := Body.instructionLineCount d.body.toList
          complexity := d.score
          obfuscated := decide (10 < d.score) }) ∧
      ∀ source profile p,
        (tags (document source text a profile p).toList).filter isRowTag =
          "<tr>" :: ds.map fun d =>
            if 10 < d.score then "<tr class=\"obfuscated-row\">" else "<tr>") ∧
    (a.metrics.totalFunctions = a.listing.functionMetrics.length ∧
      a.metrics.obfuscatedFunctions = a.listing.functionMetrics.countP (·.obfuscated) ∧
      a.metrics.totalInstructions = (a.listing.functionMetrics.map (·.instructions)).sum ∧
      a.metrics.obfuscatedInstructions = a.metrics.totalInstructions) ∧
    (∀ kind, a.metrics.get kind = (MarkerCounts.ofText text).get kind ∧
      (0 < a.metrics.get kind ↔ kind ∈ listedKinds (techniques a.markers))) ∧
    listedKinds (techniques a.markers) = MarkerKind.all.filter (0 < a.metrics.get ·) := by
  intro a
  obtain ⟨ds, hds, hfunctions⟩ := exists_map_ofDefinition text
  have hrows : a.listing.functionMetrics = ds.map (fun d =>
      FunctionMetrics.ofFunction (Function.ofDefinition d)) := by
    show (ofText text).functions.map FunctionMetrics.ofFunction = _
    rw [hfunctions, List.map_map]
    rfl
  simp only [ofFunction_ofDefinition] at hrows
  have hcount : ∀ kind, a.metrics.get kind = a.markers.get kind :=
    ListingMetrics.get_of a.listing a.markers
  have hlisted : listedKinds (techniques a.markers) =
      MarkerKind.all.filter (0 < a.metrics.get ·) := by
    simp only [listedKinds_techniques, MarkerCounts.detected, hcount]
  obtain ⟨hfunctionTotal, hobfuscated, hinstructions⟩ :=
    totals_eq_functionMetrics a.listing a.markers
  refine ⟨⟨ds, hds, hfunctions, ?_, hrows, ?_⟩, ⟨hfunctionTotal, hobfuscated, hinstructions, rfl⟩,
    ?_, hlisted⟩
  · intro d _
    exact ⟨length_instructions_ofDefinition d, blockCount_ofDefinition d, complexity_ofDefinition d⟩
  · intro source profile p
    rw [(hasTags_document source text a profile p).tags_eq, filter_isRowTag_documentTags, hrows,
      List.map_map, List.map_map]
    simp only [Function.comp_def, rowTag, decide_eq_true_eq]
  · intro kind
    refine ⟨hcount kind, ?_⟩
    have hall : kind ∈ MarkerKind.all := by cases kind <;> decide
    rw [hlisted, List.mem_filter, decide_eq_true_eq]
    exact (and_iff_right hall).symm

end Report
end IrSurvey
