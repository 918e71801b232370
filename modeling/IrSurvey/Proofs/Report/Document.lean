import IrSurvey.Proofs.Report.Html
import IrSurvey.Report.Document

/-!
The markup of a report. Its tags are those of its layout, with a row for each function and an entry
for each technique; nothing else of what it shows has a part in them. The two code blocks give back
the texts that went into them.
-/
namespace IrSurvey.Report
open Html

/-! ## Sections -/

def rowTag (flagged : Bool) : String :=
  if flagged then "<tr class=\"obfuscated-row\">" else "<tr>"

def cellTags : List String :=
  ["<td>", "</td>", "<td>", "</td>", "<td>", "</td>", "<td>", "</td>", "</tr>"]

theorem hasTags_tableRow (row : FunctionMetrics) :
    HasTags (tableRow row) (rowTag row.obfuscated :: cellTags) := by
  have hopening : HasTags ("<tr" ++ (if row.obfuscated then " class=\"obfuscated-row\"" else "") ++
      "><td>") [rowTag row.obfuscated, "<td>"] := by
    cases row.obfuscated with
    | false =>
        have hspelling : "<tr" ++ "" ++ "><td>" = "<tr><td>" := by decide
        show HasTags ("<tr" ++ "" ++ "><td>") ["<tr>", "<td>"]
        rw [hspelling]
        exact .ofList rfl rfl
    | true =>
        have hspelling : "<tr" ++ " class=\"obfuscated-row\"" ++ "><td>" =
            "<tr class=\"obfuscated-row\"><td>" := by
          decide
        show HasTags ("<tr" ++ " class=\"obfuscated-row\"" ++ "><td>")
          ["<tr class=\"obfuscated-row\">", "<td>"]
        rw [hspelling]
        exact .ofList rfl rfl
  have hcell : HasTags "</td><td>" ["</td>", "<td>"] :=
    .ofList rfl rfl
  have hend : HasTags "</td></tr>\n" ["</td>", "</tr>"] :=
    .ofList rfl rfl
  exact (((((((hopening.append_plain (plain_escape _)).append hcell).append_plain
    (plain_toString _)).append hcell).append_plain (plain_toString _)).append hcell).append_plain
    (plain_toString _)).append hend

def tableTags (flags : List Bool) : List String :=
  ["<table class=\"complexity\">", "<tr>", "<th>", "</th>", "<th>", "</th>", "<th>", "</th>",
    "<th>", "</th>", "</tr>"] ++ flags.flatMap (fun flag => rowTag flag :: cellTags) ++ ["</table>"]

theorem hasTags_complexityTable (l : Listing) :
    HasTags (complexityTable l) (tableTags (l.functionMetrics.map (·.obfuscated))) := by
  have hfirst : HasTags "<table class=\"complexity\">\n<tr><th>Function</th><th>Basic Blocks</th>"
      ["<table class=\"complexity\">", "<tr>", "<th>", "</th>", "<th>", "</th>"] :=
    .ofList rfl rfl
  have hsecond : HasTags "<th>Instructions</th><th>Complexity Score</th></tr>\n"
      ["<th>", "</th>", "<th>", "</th>", "</tr>"] :=
    .ofList rfl rfl
  have hrows := HasTags.join (l := l.functionMetrics) fun row _ => hasTags_tableRow row
  have hend : HasTags "</table>" ["</table>"] := .ofList rfl rfl
  unfold tableTags
  rw [List.flatMap_map]
  exact ((hfirst.append hsecond).append hrows).append hend

def entryTags : List String :=
  ["<div class=\"technique\">", "<strong>", "</strong>", "</div>"]

def techniqueTags (kinds : List MarkerKind) : List String :=
  if kinds = [] then ["<div class=\"technique\">", "</div>"] else kinds.flatMap fun _ => entryTags

theorem hasTags_techniqueEntry (m : MarkerCounts) (kind : MarkerKind) :
    HasTags (techniqueEntry m kind) entryTags := by
  have hopening : HasTags "<div class=\"technique\"><strong>"
      ["<div class=\"technique\">", "<strong>"] :=
    .ofList rfl rfl
  have hlabel : Plain kind.label.toList := by
    cases kind <;> exact .ofList rfl
  have hmiddle : HasTags ":</strong> " ["</strong>"] :=
    .ofList rfl rfl
  have hdescription : Plain kind.description.toList := by
    cases kind <;> exact .ofList rfl
  have hend : HasTags " occurrences)</div>" ["</div>"] :=
    .ofList rfl rfl
  exact (((((hopening.append_plain hlabel).append hmiddle).append_plain hdescription).append_plain
    (by decide)).append_plain (plain_toString _)).append hend

theorem hasTags_techniques (m : MarkerCounts) :
    HasTags (techniques m) (techniqueTags m.detected) := by
  unfold techniques techniqueTags
  split
  next =>
      have hfirst : HasTags "<div class=\"technique\">Basic obfuscation techniques applied "
          ["<div class=\"technique\">"] :=
        .ofList rfl rfl
      have hsecond : HasTags "(instruction substitution, variable renaming)</div>" ["</div>"] :=
        .ofList rfl rfl
      exact hfirst.append hsecond
  next => exact HasTags.intercalate (by decide) fun kind _ => hasTags_techniqueEntry m kind

def cardTags : List String :=
  ["<div class=\"metric-card\">", "<div class=\"metric-label\">", "</div>",
    "<div class=\"metric-value\">", "</div>", "</div>"]

theorem hasTags_metricCard {card : String × Nat} (hlabel : Plain card.1.toList) :
    HasTags (metricCard card) cardTags := by
  have hopening : HasTags "<div class=\"metric-card\"><div class=\"metric-label\">"
      ["<div class=\"metric-card\">", "<div class=\"metric-label\">"] :=
    .ofList rfl rfl
  have hlabelEnd : HasTags "</div>" ["</div>"] := .ofList rfl rfl
  have hvalue : HasTags "<div class=\"metric-value\">" ["<div class=\"metric-value\">"] :=
    .ofList rfl rfl
  have hend : HasTags "</div></div>\n" ["</div>", "</div>"] :=
    .ofList rfl rfl
  exact ((((hopening.append_plain hlabel).append hlabelEnd).append hvalue).append_plain
    (plain_toString _)).append hend

theorem plain_metricCards (m : ListingMetrics) :
    ∀ card ∈ metricCards m, Plain card.1.toList := by
  simp only [metricCards, List.forall_mem_cons]
  refine ⟨?_, ?_, ?_, ?_, ?_, ?_, ?_, ?_, ?_, nofun⟩ <;> exact .ofList rfl

def metricsTags : List String :=
  ["<h2>", "</h2>", "<div class=\"metrics\">"] ++ (List.replicate 9 cardTags).flatten ++ ["</div>"]

theorem hasTags_metricsSection (m : ListingMetrics) : HasTags (metricsSection m) metricsTags := by
  have hheading : HasTags "<h2>Obfuscation Metrics</h2>\n<div class=\"metrics\">\n"
      ["<h2>", "</h2>", "<div class=\"metrics\">"] :=
    .ofList rfl rfl
  have hcards := HasTags.join fun card hcard => hasTags_metricCard (plain_metricCards m card hcard)
  have hend : HasTags "</div>\n" ["</div>"] := .ofList rfl rfl
  exact (hheading.append hcards).append hend

/-- The two code blocks that stand side by side. -/
inductive Side
  | original
  | obfuscated

/-- The tag that opens a code block. -/
def codeTag : Side → String
  | .original => "<div class=\"code-block original\">"
  | .obfuscated => "<div class=\"code-block obfuscated\">"

def comparisonTags : List String :=
  ["<h2>", "</h2>", "<div class=\"comparison\">", "<div>", "<h3>", "</h3>",
    codeTag .original, "<pre>", "</pre>", "</div>", "</div>", "<div>", "<h3>", "</h3>",
    codeTag .obfuscated, "<pre>", "</pre>", "</div>", "</div>", "</div>"]

theorem hasTags_comparisonSection (source reconstruction : String) :
    HasTags (comparisonSection source reconstruction) comparisonTags := by
  have hheading : HasTags "<h2>Code Comparison</h2>\n<div class=\"comparison\">\n"
      ["<h2>", "</h2>", "<div class=\"comparison\">"] :=
    .ofList rfl rfl
  have hsource : HasTags
      "<div><h3>Original Source Code</h3><div class=\"code-block original\"><pre>"
      ["<div>", "<h3>", "</h3>", codeTag .original, "<pre>"] :=
    .ofList rfl rfl
  have hclose : HasTags "</pre></div></div>\n" ["</pre>", "</div>", "</div>"] :=
    .ofList rfl rfl
  have hreconstruction : HasTags
      "<div><h3>Obfuscated LLVM IR (Decompiled)</h3><div class=\"code-block obfuscated\"><pre>"
      ["<div>", "<h3>", "</h3>", codeTag .obfuscated, "<pre>"] :=
    .ofList rfl rfl
  have hend : HasTags "</pre></div></div>\n</div>\n" ["</pre>", "</div>", "</div>", "</div>"] :=
    .ofList rfl rfl
  exact (((((hheading.append hsource).append_plain (plain_escape _)).append hclose).append
    hreconstruction).append_plain (plain_escape _)).append hend

def observationTags : List String :=
  ["<h2>", "</h2>", "<div class=\"summary\">", "<ul>", "<li>", "<strong>", "</strong>",
    "<span class=\"highlight\">", "</span>", "</li>", "<li>", "<strong>", "</strong>", "</li>",
    "<li>", "<strong>", "</strong>", "</li>", "</ul>", "</div>"]

theorem hasTags_observationsSection (m : ListingMetrics) :
    HasTags (observationsSection m) observationTags := by
  have hheading : HasTags "<h2>Key Observations</h2>\n<div class=\"summary\"><ul>\n"
      ["<h2>", "</h2>", "<div class=\"summary\">", "<ul>"] :=
    .ofList rfl rfl
  have hsize : HasTags "<li><strong>Code Size:</strong> the obfuscated listing contains "
      ["<li>", "<strong>", "</strong>"] :=
    .ofList rfl rfl
  have hspan : HasTags "<span class=\"highlight\">" ["<span class=\"highlight\">"] :=
    .ofList rfl rfl
  have hacross : HasTags "</span> instructions across " ["</span>"] :=
    .ofList rfl rfl
  have hfunctions : HasTags " functions</li>\n" ["</li>"] :=
    .ofList rfl rfl
  have hcomplex : HasTags "<li><strong>Complex Functions:</strong> "
      ["<li>", "<strong>", "</strong>"] :=
    .ofList rfl rfl
  have hscore : HasTags " functions score above the obfuscation threshold</li>\n" ["</li>"] :=
    .ofList rfl rfl
  have happroximate : HasTags
      "<li><strong>Readability:</strong> the reconstruction is approximate; branches and "
      ["<li>", "<strong>", "</strong>"] :=
    .ofList rfl rfl
  have hend : HasTags "memory accesses are shown as placeholders</li>\n</ul></div>\n"
      ["</li>", "</ul>", "</div>"] :=
    .ofList rfl rfl
  exact (((((((((((hheading.append hsize).append hspan).append_plain (plain_toString _)).append
    hacross).append_plain (plain_toString _)).append hfunctions).append hcomplex).append_plain
    (plain_toString _)).append_plain (by decide)).append_plain (plain_toString _)).append
    hscore).append happroximate |>.append hend

theorem hasTags_footer (p : Provenance) : HasTags (footer p) ["<footer>", "</footer>"] := by
  have hopening : HasTags "<footer>IR SHA-256: " ["<footer>"] :=
    .ofList rfl rfl
  have hend : HasTags "</footer>\n" ["</footer>"] :=
    .ofList rfl rfl
  exact (((((hopening.append_plain (plain_escape _)).append_plain (.ofList rfl)
    ).append_plain (plain_escape _)).append_plain (.ofList rfl)).append_plain
    (.ofList rfl)).append hend

/-! ## Head -/

theorem plain_styleRules :
    ∀ rule ∈ styleRules, Plain rule.1.toList ∧ ∀ declaration ∈ rule.2, Plain declaration.toList := by
  simp only [styleRules, List.forall_mem_cons, List.not_mem_nil, false_imp_iff, implies_true,
    and_true]
  and_intros <;> exact .ofList rfl

theorem plain_ruleText {rule : String × List String} (hselector : Plain rule.1.toList)
    (hdeclarations : ∀ declaration ∈ rule.2, Plain declaration.toList) :
    Plain (ruleText rule).toList := by
  have hjoin : Plain (String.join (rule.2.map (· ++ "; "))).toList := by
    apply Plain.join
    intro x hx
    obtain ⟨declaration, hmem, rfl⟩ := List.mem_map.1 hx
    rw [String.toList_append]
    exact (hdeclarations declaration hmem).append (by decide)
  simp only [ruleText, String.toList_append]
  exact ((hselector.append (by decide)).append hjoin).append (by decide)

theorem plain_style : Plain style.toList := by
  rw [style, String.toList_append]
  refine Plain.append (by decide) (Plain.join ?_)
  intro x hx
  obtain ⟨rule, hrule, rfl⟩ := List.mem_map.1 hx
  exact plain_ruleText (plain_styleRules rule hrule).1 (plain_styleRules rule hrule).2

def headTags : List String :=
  ["<!DOCTYPE html>", "<html lang=\"en\">", "<head>", "<meta charset=\"UTF-8\">",
    "<meta name=\"viewport\" content=\"width=device-width, initial-scale=1.0\">", "<title>",
    "</title>", "<style>", "</style>", "</head>"]

set_option maxRecDepth 1024 in
theorem hasTags_head : HasTags head headTags := by
  have hfirst : HasTags
      "<!DOCTYPE html>\n<html lang=\"en\">\n<head>\n<meta charset=\"UTF-8\">\n"
      ["<!DOCTYPE html>", "<html lang=\"en\">", "<head>", "<meta charset=\"UTF-8\">"] :=
    .ofList rfl rfl
  have hviewport : HasTags
      "<meta name=\"viewport\" content=\"width=device-width, initial-scale=1.0\">\n"
      ["<meta name=\"viewport\" content=\"width=device-width, initial-scale=1.0\">"] :=
    .ofList rfl rfl
  have htitle : HasTags "<title>Obfuscation Analysis Report</title>\n<style>"
      ["<title>", "</title>", "<style>"] :=
    .ofList rfl rfl
  have hend : HasTags "</style>\n</head>\n" ["</style>", "</head>"] :=
    .ofList rfl rfl
  exact (((hfirst.append hviewport).append htitle).append_plain plain_style).append hend

def summaryTags : List String :=
  ["<h1>", "</h1>", "<div class=\"summary\">", "<h2>", "</h2>", "<p>", "</p>", "</div>"]

theorem hasTags_summary : HasTags summary summaryTags := by
  have htitle : HasTags "<h1>LLVM Obfuscation Analysis Report</h1>\n" ["<h1>", "</h1>"] :=
    .ofList rfl rfl
  have hopening : HasTags
      "<div class=\"summary\"><h2>Executive Summary</h2><p>This report compares the "
      ["<div class=\"summary\">", "<h2>", "</h2>", "<p>"] :=
    .ofList rfl rfl
  have hend : HasTags
      "original source code with a C-like reconstruction of the obfuscated LLVM IR.</p></div>\n"
      ["</p>", "</div>"] :=
    .ofList rfl rfl
  exact (htitle.append hopening).append hend

/-! ## The document -/

/-- The tags of a report with these rows and entries. -/
def documentTags (flags : List Bool) (kinds : List MarkerKind) : List String :=
  headTags ++ ["<body>", "<div class=\"container\">"] ++ summaryTags ++ metricsTags ++
    comparisonTags ++
    (["<h2>", "</h2>", "<div class=\"techniques\">"] ++ techniqueTags kinds ++ ["</div>"]) ++
    (["<h2>", "</h2>"] ++ tableTags flags) ++ observationTags ++ ["<footer>", "</footer>"] ++
    ["</div>", "</body>", "</html>"]

theorem hasTags_techniquesSection (m : MarkerCounts) :
    HasTags (techniquesSection m)
      (["<h2>", "</h2>", "<div class=\"techniques\">"] ++ techniqueTags m.detected ++
        ["</div>"]) := by
  have hheading : HasTags
      "<h2>Applied Obfuscation Techniques</h2>\n<div class=\"techniques\">\n"
      ["<h2>", "</h2>", "<div class=\"techniques\">"] :=
    .ofList rfl rfl
  have hend : HasTags "\n</div>\n" ["</div>"] := .ofList rfl rfl
  exact (hheading.append (hasTags_techniques m)).append hend

theorem hasTags_complexitySection (l : Listing) :
    HasTags (complexitySection l)
      (["<h2>", "</h2>"] ++ tableTags (l.functionMetrics.map (·.obfuscated))) := by
  have hheading : HasTags "<h2>Complexity Analysis</h2>\n" ["<h2>", "</h2>"] :=
    .ofList rfl rfl
  exact (hheading.append (hasTags_complexityTable l)).append_plain (by decide)

theorem hasTags_document (source text : String) (a : Analysis) (profile : Profile)
    (p : Provenance) :
    HasTags (document source text a profile p)
      (documentTags (a.listing.functionMetrics.map (·.obfuscated)) a.markers.detected) := by
  have hbody : HasTags "<body>\n<div class=\"container\">\n"
      ["<body>", "<div class=\"container\">"] :=
    .ofList rfl rfl
  have hend : HasTags "</div>\n</body>\n</html>\n" ["</div>", "</body>", "</html>"] :=
    .ofList rfl rfl
  exact ((((((((hasTags_head.append hbody).append hasTags_summary).append
    (hasTags_metricsSection a.metrics)).append
    (hasTags_comparisonSection source (Code.overview profile text a.listing))).append
    (hasTags_techniquesSection a.markers)).append (hasTags_complexitySection a.listing)).append
    (hasTags_observationsSection a.metrics)).append (hasTags_footer p)).append hend

/-! ## The code blocks -/

/-- A text with a code block somewhere in it. -/
def HasBlock (side : Side) (shown u : String) : Prop :=
  ∃ before after, u = before ++ (codeTag side ++ "<pre>") ++ (escape shown ++ ("</pre>" ++ after))

variable {side : Side} {shown u v : String}

theorem HasBlock.append (h : HasBlock side shown u) (v : String) :
    HasBlock side shown (u ++ v) := by
  obtain ⟨before, after, rfl⟩ := h
  exact ⟨before, after ++ v, by simp only [String.append_assoc]⟩

theorem HasBlock.prepend (h : HasBlock side shown v) (u : String) :
    HasBlock side shown (u ++ v) := by
  obtain ⟨before, after, rfl⟩ := h
  exact ⟨u ++ before, after, by simp only [String.append_assoc]⟩

/-- A block within its two wrappers. -/
theorem hasBlock_of_literals {first last lead tail : String}
    (hfirst : first = lead ++ (codeTag side ++ "<pre>")) (hlast : last = "</pre>" ++ tail)
    (shown : String) : HasBlock side shown (first ++ escape shown ++ last) :=
  ⟨lead, tail, by rw [hfirst, hlast, String.append_assoc]⟩

theorem hasBlock_source (source reconstruction : String) :
    HasBlock .original source (comparisonSection source reconstruction) := by
  have hblock : HasBlock .original source
      ("<div><h3>Original Source Code</h3><div class=\"code-block original\"><pre>" ++
        escape source ++ "</pre></div></div>\n") :=
    hasBlock_of_literals
      (show _ = "<div><h3>Original Source Code</h3>" ++ _ by decide)
      (show _ = _ ++ "</div></div>\n" by decide) source
  have hsection := hblock.prepend "<h2>Code Comparison</h2>\n<div class=\"comparison\">\n"
  rw [← String.append_assoc, ← String.append_assoc] at hsection
  exact ((hsection.append _).append _).append _

theorem hasBlock_reconstruction (source reconstruction : String) :
    HasBlock .obfuscated reconstruction (comparisonSection source reconstruction) := by
  have hblock : HasBlock .obfuscated reconstruction
      ("<div><h3>Obfuscated LLVM IR (Decompiled)</h3><div class=\"code-block obfuscated\"><pre>" ++
        escape reconstruction ++ "</pre></div></div>\n</div>\n") :=
    hasBlock_of_literals
      (show _ = "<div><h3>Obfuscated LLVM IR (Decompiled)</h3>" ++ _ by decide)
      (show _ = _ ++ "</div></div>\n</div>\n" by decide) reconstruction
  have hsection := hblock.prepend ("<h2>Code Comparison</h2>\n<div class=\"comparison\">\n" ++
    "<div><h3>Original Source Code</h3><div class=\"code-block original\"><pre>" ++
    escape source ++ "</pre></div></div>\n")
  rw [← String.append_assoc, ← String.append_assoc] at hsection
  exact hsection

theorem HasBlock.document {source text : String} {a : Analysis} {profile : Profile}
    (h : HasBlock side shown (comparisonSection source (Code.overview profile text a.listing)))
    (p : Provenance) : HasBlock side shown (document source text a profile p) :=
  (((((h.prepend _).append _).append _).append _).append _).append _

/-- Each block opens once, whatever the rows and the entries. -/
theorem count_documentTags (flags : List Bool) (kinds : List MarkerKind) (side : Side) :
    (documentTags flags kinds).count (codeTag side) = 1 := by
  have hrow : ∀ flag, codeTag side ∉ rowTag flag :: cellTags := by
    cases side <;> decide +kernel
  have hentry : codeTag side ∉ entryTags := by
    cases side <;> decide +kernel
  have hrows : ∀ flags : List Bool,
      (flags.flatMap fun flag => rowTag flag :: cellTags).count (codeTag side) = 0 := by
    intro flags
    rw [List.count_eq_zero, List.mem_flatMap]
    rintro ⟨flag, -, h⟩
    exact hrow flag h
  have hentries : ∀ kinds, (techniqueTags kinds).count (codeTag side) = 0 := by
    intro kinds
    unfold techniqueTags
    rw [List.count_eq_zero]
    split
    next => cases side <;> decide +kernel
    next =>
        rw [List.mem_flatMap]
        rintro ⟨kind, -, h⟩
        exact hentry h
  have hlayout : (documentTags [] []).count (codeTag side) = 1 := by
    cases side <;> decide +kernel
  simp only [documentTags, tableTags, List.count_append, hrows, hentries] at hlayout ⊢
  exact hlayout

theorem isTag_codeTag (side : Side) : IsTag (codeTag side) := by
  cases side with
  | original => exact .ofList rfl rfl rfl
  | obfuscated => exact .ofList rfl rfl rfl

/-- What a block shows: there is a place where it opens, and wherever it opens, the text up to the
next tag, which closes it, reads back as the text shown. -/
def ShowsIn (side : Side) (shown doc : String) : Prop :=
  (∃ before after, doc.toList = before ++ (codeTag side ++ "<pre>").toList ++ after) ∧
    ∀ before after, doc.toList = before ++ (codeTag side ++ "<pre>").toList ++ after →
      "</pre>".toList <+: after.dropWhile (· ≠ '<') ∧
        unescape (after.takeWhile (· ≠ '<')) = shown.toList

theorem HasBlock.showsIn {doc : String} {ts : List String} (h : HasBlock side shown doc)
    (hdoc : HasTags doc ts) (hcount : ts.count (codeTag side) = 1) : ShowsIn side shown doc := by
  obtain ⟨front, rest, rfl⟩ := h
  obtain ⟨halternating, rfl⟩ := hdoc
  have hclose : "</pre>".toList = '<' :: "/pre>".toList := rfl
  have hsplit : (front ++ (codeTag side ++ "<pre>") ++ (escape shown ++ ("</pre>" ++ rest))).toList =
      front.toList ++ (codeTag side).toList ++
        ("<pre>".toList ++ ((escape shown).toList ++ '<' :: ("/pre>".toList ++ rest.toList))) := by
    simp only [String.toList_append, List.append_assoc, hclose, List.cons_append]
  rw [hsplit] at halternating hcount
  unfold ShowsIn
  rw [hsplit]
  constructor
  · refine ⟨front.toList, (escape shown).toList ++ '<' :: ("/pre>".toList ++ rest.toList), ?_⟩
    simp only [String.toList_append, List.append_assoc]
  · intro before after h
    have hcut : before ++ (codeTag side ++ "<pre>").toList ++ after =
        before ++ (codeTag side).toList ++ ("<pre>".toList ++ after) := by
      simp only [String.toList_append, List.append_assoc]
    obtain ⟨-, hafter⟩ := split_unique (isTag_codeTag side) halternating hcount (h.trans hcut)
    obtain rfl := List.append_cancel_left hafter
    rw [dropWhile_escape, takeWhile_escape, unescape_escape, hclose]
    exact ⟨⟨rest.toList, rfl⟩, rfl⟩

/-- Two reports have the same tags if their functions score alike and the same techniques are found:
no other text or number has a part in the markup. In each, the code blocks give back the source and
its reconstruction. -/
theorem document_markup (source text : String) (a : Analysis) (profile : Profile)
    (p : Provenance) :
    (∀ (source' text' : String) (a' : Analysis) (profile' : Profile) (p' : Provenance),
      a'.listing.functions.map (fun f => decide (10 < f.complexity)) =
          a.listing.functions.map (fun f => decide (10 < f.complexity)) →
        a'.markers.detected = a.markers.detected →
          tags (document source' text' a' profile' p').toList =
            tags (document source text a profile p).toList) ∧
      ShowsIn .original source (document source text a profile p) ∧
      ShowsIn .obfuscated (Code.overview profile text a.listing)
        (document source text a profile p) := by
  have hdoc := hasTags_document source text a profile p
  refine ⟨?_, ?_, ?_⟩
  · intro source' text' a' profile' p' hflags hkinds
    have hrows : ∀ l : Listing, l.functionMetrics.map (·.obfuscated) =
        l.functions.map fun f => decide (10 < f.complexity) := by
      intro l
      exact List.map_map
    rw [(hasTags_document source' text' a' profile' p').tags_eq, hdoc.tags_eq, hrows, hrows, hflags,
      hkinds]
  · exact ((hasBlock_source _ _).document p).showsIn hdoc
      (count_documentTags _ _ .original)
  · exact ((hasBlock_reconstruction _ _).document p).showsIn hdoc
      (count_documentTags _ _ .obfuscated)

/-- A name and a source that try to close what they stand in. -/
theorem document_markup_hostile :
    let profile : Profile := { maxLines := 20, showLabels := false }
    let p : Provenance := { digest := "0", generatedAt := "<now>" }
    let named (name : String) : Analysis :=
      let listing : Listing :=
        { functions := [{ name, returnType := "void", parameters := [],
                          instructions := ["ret void"], labels := [] }]
          globals := []
          strings := [] }
      let markers : MarkerCounts := { recorded := fun _ => some 0 }
      { listing, markers, metrics := .of listing markers }
    let hostile := document "</pre>&lt;" "" (named "f</td><script>") profile p
    (named "f</td><script>").listing.functions.map (fun f => decide (10 < f.complexity)) =
        (named "f").listing.functions.map (fun f => decide (10 < f.complexity)) ∧
      (named "f</td><script>").markers.detected = (named "f").markers.detected ∧
      tags hostile.toList = tags (document "" "" (named "f") profile p).toList ∧
      ShowsIn .original "</pre>&lt;" hostile ∧
      ShowsIn .obfuscated (Code.overview profile "" (named "f</td><script>").listing) hostile := by
  intro profile p named hostile
  have hharmless := document_markup "" "" (named "f") profile p
  have hhostile := document_markup "</pre>&lt;" "" (named "f</td><script>") profile p
  exact ⟨rfl, rfl, hharmless.1 _ _ _ _ _ rfl rfl, hhostile.2⟩

end IrSurvey.Report
