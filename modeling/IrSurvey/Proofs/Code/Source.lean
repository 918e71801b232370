import Mathlib.Algebra.GroupWithZero.Nat
import IrSurvey.Code.Source
import IrSurvey.Metrics
import IrSurvey.Proofs.Instruction.Line
import IrSurvey.Proofs.Listing.OneLine

/-!
The lines of a source listing. Nothing that is taken from a text brings a line of its own, so the
lines are those that the layout lays out: the heading, one for each global and each named string,
and for each function its signature, its body and its end.
-/
namespace IrSurvey.Code
open Listing (Function Parameter BlockLabel Global StringConstant)
open Text

variable {profile : Profile} {f : Function}

/-! ## Bodies -/

theorem oneLine_labelLines {labels : List BlockLabel} (h : ∀ l ∈ labels, OneLine l.label) :
    ∀ line ∈ labelLines profile labels, OneLine line := by
  intro line hline
  unfold labelLines at hline
  split at hline
  next =>
      obtain ⟨l, hl, rfl⟩ := List.mem_map.1 hline
      exact oneLine_append.2 ⟨oneLine_append.2 ⟨by decide, h l hl⟩, by decide⟩
  next => cases hline

theorem oneLine_linesFrom {n : Nat} {codes : List String} {labels : List BlockLabel}
    (hcodes : ∀ code ∈ codes, OneLine code) (hlabels : ∀ l ∈ labels, OneLine l.label) :
    ∀ line ∈ linesFrom profile n codes labels, OneLine line := by
  induction codes generalizing n labels with
  | nil => exact oneLine_labelLines hlabels
  | cons code codes ih =>
      have hdue : ∀ l ∈ labels.takeWhile (·.position ≤ n), OneLine l.label := fun l hl =>
        hlabels l ((List.takeWhile_sublist _).subset hl)
      have hwait : ∀ l ∈ labels.dropWhile (·.position ≤ n), OneLine l.label := fun l hl =>
        hlabels l ((List.dropWhile_sublist _).subset hl)
      intro line hline
      rw [linesFrom, List.mem_append, List.mem_append] at hline
      rcases hline with (hline | hline) | hline
      · exact oneLine_labelLines hdue line hline
      · exact Instruction.oneLine_lowerLine (hcodes code List.mem_cons_self) line
          (Option.mem_toList.1 hline)
      · exact ih (fun c hc => hcodes c (List.mem_cons_of_mem code hc)) hwait line hline

theorem oneLine_omittedLine (n : Nat) : OneLine (omittedLine n) := by
  simp only [omittedLine, oneLine_append]
  exact ⟨⟨by decide, oneLine_toString n⟩, by decide⟩

theorem oneLine_cap {most : Nat} {ls : List String} (h : ∀ line ∈ ls, OneLine line) :
    ∀ line ∈ cap most ls, OneLine line := by
  intro line hline
  unfold cap at hline
  split at hline
  next =>
      rcases List.mem_append.1 hline with hline | hline
      · exact h line (List.mem_of_mem_take hline)
      · obtain rfl := List.mem_singleton.1 hline
        exact oneLine_omittedLine _
  next => exact h line hline

theorem oneLine_bodyLines (hf : f.OnOneLine) : ∀ line ∈ bodyLines profile f, OneLine line :=
  oneLine_cap (oneLine_linesFrom hf.instructions hf.labels)

/-! ## Functions -/

theorem oneLine_ofWord? {w : List Char} : ∀ type ∈ CType.ofWord? w, OneLine type := by
  intro type h
  unfold CType.ofWord? at h
  split at h <;> cases h <;> decide

theorem oneLine_ofType (s : List Char) : OneLine (CType.ofType s) := by
  unfold CType.ofType
  split
  next => decide
  next =>
      cases h : (words s).findSome? CType.ofWord? with
      | none => decide
      | some type =>
          obtain ⟨w, -, hw⟩ := List.exists_of_findSome?_eq_some h
          exact oneLine_ofWord? type hw

theorem oneLine_parameterText {p : Parameter} (h : ∀ n ∈ p.name, OneLine n) (index : Nat) :
    OneLine (parameterText p index) := by
  simp only [parameterText, oneLine_append]
  refine ⟨⟨oneLine_ofType _, by decide⟩, ?_⟩
  cases hname : p.name with
  | none => exact oneLine_append.2 ⟨by decide, oneLine_toString index⟩
  | some n => exact h n hname

theorem oneLine_signature (hf : f.OnOneLine) : OneLine (signature f) := by
  simp only [signature, oneLine_append]
  refine ⟨⟨⟨⟨⟨oneLine_ofType _, by decide⟩, hf.name⟩, by decide⟩, ?_⟩, by decide⟩
  refine oneLine_intercalate (by decide) ?_
  intro t ht
  obtain ⟨⟨p, i⟩, hp, rfl⟩ := List.mem_map.1 ht
  exact oneLine_parameterText (hf.parameters p (List.fst_mem_of_mem_zipIdx hp)) i

/-- The lines of a function in a listing, and the empty line after them. -/
def functionLines (profile : Profile) (f : Function) : List String :=
  (signature f ++ " \x7b") :: (bodyLines profile f).map ("    " ++ ·) ++ ["\x7d", ""]

theorem lines_join {ls : List String} (h : ∀ line ∈ ls, OneLine line) (t : List Char) :
    lines ((String.join (ls.map fun line => "    " ++ line ++ "\n")).toList ++ t) =
      (ls.map ("    " ++ ·)).map String.toList ++ lines t := by
  induction ls with
  | nil => rfl
  | cons line ls ih =>
      have hline : OneLine ("    " ++ line) :=
        oneLine_append.2 ⟨by decide, h line List.mem_cons_self⟩
      have hrest := ih fun l hl => h l (List.mem_cons_of_mem line hl)
      have hnewline : "\n".toList = ['\n'] := rfl
      rw [String.toList_join] at hrest ⊢
      rw [List.map_cons, List.flatMap_cons, String.toList_append, hnewline, List.append_assoc,
        List.append_assoc, List.singleton_append, lines_append_newline, hrest, lines_toList hline]
      rfl

theorem lines_functionText (hf : f.OnOneLine) :
    [functionText profile f, ""].flatMap (fun a => lines a.toList) =
      (functionLines profile f).map String.toList := by
  have hsignature : OneLine (signature f ++ " \x7b") :=
    oneLine_append.2 ⟨oneLine_signature hf, by decide⟩
  have hopening : " \x7b\n".toList = " \x7b".toList ++ ['\n'] := rfl
  have htext : (functionText profile f).toList = (signature f ++ " \x7b").toList ++ '\n' ::
      ((String.join ((bodyLines profile f).map fun line => "    " ++ line ++ "\n")).toList ++
        ['\x7d']) := by
    simp only [functionText, String.toList_append, hopening, List.append_assoc,
      List.singleton_append]
    rfl
  have hend : lines ['\x7d'] = [['\x7d']] := lines_eq_singleton (by decide)
  have hempty : lines "".toList = [[]] := lines_eq_singleton (by decide)
  rw [List.flatMap_cons, List.flatMap_singleton, htext, lines_append_newline,
    lines_toList hsignature, lines_join (oneLine_bodyLines hf), hend, hempty]
  simp [functionLines]

/-! ## Globals and strings -/

theorem oneLine_globalLine {g : Global} (hg : OneLine g.name ∧ OneLine g.initializer) :
    OneLine (globalLine g) := by
  simp only [globalLine, oneLine_append]
  exact ⟨⟨⟨by decide, hg.1⟩, by decide⟩, hg.2⟩

theorem newline_not_mem_hexPair (n : Nat) (h : n < 256) : '\n' ∉ CLiteral.hexPair n := by
  have hdigit : ∀ k < 16, '\n' ≠ Nat.digitChar k := by decide
  simp only [CLiteral.hexPair, List.mem_cons, List.not_mem_nil, or_false, not_or]
  exact ⟨hdigit _ (by omega), hdigit _ (by omega)⟩

theorem newline_not_mem_escapeChar (c : Char) : '\n' ∉ CLiteral.escapeChar c := by
  unfold CLiteral.escapeChar
  split
  case h_6 hbackslash hquote hnewline hreturn htab =>
      split
      next => decide
      next =>
          split
          next hcontrol =>
              have hsmall : c.toNat < 256 := by
                simp only [CLiteral.isControl, Bool.or_eq_true, Bool.and_eq_true,
                  decide_eq_true_eq] at hcontrol
                omega
              simp only [List.mem_cons, not_or]
              exact ⟨by decide, by decide, newline_not_mem_hexPair _ hsmall⟩
          next =>
              rw [List.mem_singleton]
              exact fun h => hnewline h.symm
  all_goals decide

theorem oneLine_escape (s : String) : OneLine (CLiteral.escape s) := by
  refine oneLine_ofList.2 fun h => ?_
  obtain ⟨c, -, hc⟩ := List.mem_flatMap.1 h
  exact newline_not_mem_escapeChar c hc

theorem oneLine_stringLine? {c : StringConstant} (h : ∀ n ∈ c.name, OneLine n) :
    ∀ line ∈ stringLine? c, OneLine line := by
  intro line hline
  obtain ⟨name, hname, rfl⟩ := Option.map_eq_some_iff.1 hline
  simp only [oneLine_append]
  exact ⟨⟨⟨⟨by decide, h name hname⟩, by decide⟩, oneLine_escape _⟩, by decide⟩

theorem lines_block {title : String} {ls : List String} (htitle : OneLine title)
    (h : ∀ line ∈ ls, OneLine line) :
    (block title ls).flatMap (fun a => lines a.toList) = (block title ls).map String.toList := by
  apply flatMap_lines
  intro a ha
  unfold block at ha
  split at ha
  next => cases ha
  next =>
      rcases List.mem_append.1 ha with ha | ha
      · rcases List.mem_cons.1 ha with rfl | ha
        · exact htitle
        · exact h a ha
      · obtain rfl := List.mem_singleton.1 ha
        decide

theorem length_filterMap_stringLine? (cs : List StringConstant) :
    (cs.filterMap stringLine?).length = cs.countP (·.name.isSome) := by
  rw [List.length_filterMap_eq_countP]
  simp only [stringLine?, Option.isSome_map]

theorem length_block (title : String) (ls : List String) :
    (block title ls).length = if 0 < ls.length then ls.length + 2 else 0 := by
  cases ls <;> simp [block]

/-! ## The listing -/

/-- The lines of a listing, in terms of what it holds. -/
def listingLines (profile : Profile) (l : Listing) : List String :=
  heading ++ block "// Global variables" (l.globals.map globalLine) ++
    block "// String constants" (l.strings.filterMap stringLine?) ++
    l.functions.flatMap (functionLines profile)

theorem lines_eq_listingLines {l : Listing} (hl : l.OnOneLine) :
    lines (sourceListing profile l).toList = (listingLines profile l).map String.toList := by
  have hheading : heading.flatMap (fun a => lines a.toList) = heading.map String.toList :=
    flatMap_lines (by decide)
  have hglobals : ∀ line ∈ l.globals.map globalLine, OneLine line := by
    intro line hline
    obtain ⟨g, hg, rfl⟩ := List.mem_map.1 hline
    exact oneLine_globalLine (hl.globals g hg)
  have hstrings : ∀ line ∈ l.strings.filterMap stringLine?, OneLine line := by
    intro line hline
    obtain ⟨c, hc, hshown⟩ := List.mem_filterMap.1 hline
    exact oneLine_stringLine? (hl.strings c hc) line hshown
  have hfunctions : (l.functions.flatMap fun f => [functionText profile f, ""]).flatMap
      (fun a => lines a.toList) =
        (l.functions.flatMap (functionLines profile)).map String.toList := by
    rw [List.flatMap_assoc, List.map_flatMap]
    exact List.flatMap_congr fun f hf => lines_functionText (hl.functions f hf)
  unfold sourceListing listingLines
  rw [lines_intercalate (by simp [heading])]
  simp only [List.flatMap_append, List.map_append, hheading, hfunctions,
    lines_block (show OneLine "// Global variables" by decide) hglobals,
    lines_block (show OneLine "// String constants" by decide) hstrings]

theorem length_listingLines (l : Listing) :
    (listingLines profile l).length = 6 +
      (if 0 < (l.globals.map globalLine).length then (l.globals.map globalLine).length + 2 else 0) +
      (if 0 < (l.strings.filterMap stringLine?).length then
        (l.strings.filterMap stringLine?).length + 2 else 0) +
      (l.functions.map fun f => (bodyLines profile f).length + 3).sum := by
  have hfunction : ∀ f, (functionLines profile f).length = (bodyLines profile f).length + 3 := by
    intro f
    simp [functionLines]
  have hsix : heading.length = 6 := rfl
  rw [listingLines, List.length_append, List.length_append, List.length_append, length_block,
    length_block, List.length_flatMap, hsix]
  simp only [hfunction]

/-- The lines of a listing are those of its layout: no name, parameter, instruction, tail or string
of the text starts a line of its own. -/
theorem lines_sourceListing (profile : Profile) (text : String) :
    let l := (Analysis.ofText text).listing
    let globals := l.globals.map globalLine
    let named := l.strings.filterMap stringLine?
    let shown := lines (sourceListing profile l).toList
    shown = (heading ++
        (if globals = [] then [] else "// Global variables" :: globals ++ [""]) ++
        (if named = [] then [] else "// String constants" :: named ++ [""]) ++
        l.functions.flatMap fun f =>
          (signature f ++ " \x7b") :: (bodyLines profile f).map ("    " ++ ·) ++
            ["\x7d", ""]).map String.toList ∧
      (heading.length = 6 ∧ globals.length = l.globals.length ∧
        named.length = l.strings.countP (·.name.isSome)) ∧
      (∀ line ∈ globals, "// ".toList <+: line.toList) ∧
      (∀ line ∈ named, "// const char* ".toList <+: line.toList ∧ "\";".toList <:+ line.toList) ∧
      shown.length = 6 +
        (if 0 < globals.length then globals.length + 2 else 0) +
        (if 0 < named.length then named.length + 2 else 0) +
        (l.functions.map fun f => (bodyLines profile f).length + 3).sum := by
  intro l globals named shown
  have hshown : shown = (listingLines profile l).map String.toList :=
    lines_eq_listingLines (Listing.onOneLine_ofText text)
  refine ⟨hshown, ⟨rfl, List.length_map _, length_filterMap_stringLine? _⟩, ?_, ?_, ?_⟩
  · intro line hline
    obtain ⟨g, -, rfl⟩ := List.mem_map.1 hline
    exact ⟨(g.name ++ " = " ++ g.initializer).toList, by simp [globalLine]⟩
  · intro line hline
    obtain ⟨c, -, hc⟩ := List.mem_filterMap.1 hline
    obtain ⟨name, -, rfl⟩ := Option.map_eq_some_iff.1 hc
    constructor
    · exact ⟨(name ++ " = \"" ++ CLiteral.escape c.decoded ++ "\";").toList, by simp⟩
    · exact ⟨("// const char* " ++ name ++ " = \"" ++ CLiteral.escape c.decoded).toList, by simp⟩
  · rw [hshown, List.length_map]
    exact length_listingLines l

end IrSurvey.Code
