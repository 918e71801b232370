import IrSurvey.Proofs.Listing.Canonical
import IrSurvey.Proofs.Listing.Declaration
import IrSurvey.Proofs.Listing.Definition
import IrSurvey.Proofs.Listing.Literal
import IrSurvey.Proofs.Listing.Parameter
import IrSurvey.Proofs.Listing.Qualifier
import IrSurvey.Proofs.Listing.Table
import IrSurvey.Proofs.Text.Line
import IrSurvey.Proofs.Text.Piece

/-!
What a listing holds is on one line, except for types, parameter lists and decoded strings. Names are
spelled with name characters, and the rest is cut out of lines.
-/
namespace IrSurvey.Listing
open Text
open scoped List

variable {s : List Char}

/-! ## Functions -/

/-- The text of an item. -/
def Body.Item.text : Body.Item → String
  | .label digits => digits
  | .instruction code => code

theorem Body.oneLine_item {i : Body.Item} (h : i ∈ Body.items s) : OneLine i.text := by
  have hi : i.WellFormed := Body.wellFormed_of_mem_items h
  cases i with
  | label digits => exact Body.IsNumeral.newline_not_mem hi
  | instruction code => exact Body.IsCode.newline_not_mem hi

theorem Parameter.oneLine_name {p : Parameter} (h : p ∈ Parameter.all s) :
    ∀ n ∈ p.name, OneLine n := by
  obtain ⟨piece, -, rfl⟩ := List.mem_map.1 h
  exact fun n hn => (Parameter.isLocal_of_mem_name hn).newline_not_mem

/-- What is shown of a function is on one line, piece by piece. -/
structure Function.OnOneLine (f : Function) : Prop where
  name : OneLine f.name
  parameters : ∀ p ∈ f.parameters, ∀ n ∈ p.name, OneLine n
  instructions : ∀ code ∈ f.instructions, OneLine code
  labels : ∀ l ∈ f.labels, OneLine l.label

theorem onOneLine_of_mem_functions {text : String} {f : Function}
    (h : f ∈ (ofText text).functions) : f.OnOneLine := by
  obtain ⟨d, hd, rfl⟩ := exists_definition_of_mem_functions h
  have hname := Definition.isSymbol_name_of_mem_all (List.mem_of_mem_filter hd)
  exact {
    name := hname.newline_not_mem
    parameters := fun p hp => Parameter.oneLine_name hp
    instructions := fun code hcode =>
      Body.oneLine_item (Body.mem_items_of_mem_instructions hcode)
    labels := fun l hl => Body.oneLine_item (Body.mem_items_of_mem_labels hl) }

/-! ## Globals and strings -/

theorem Declaration.oneLine_of_mem_all {g : Global} (h : g ∈ Declaration.all s) :
    OneLine g.name ∧ OneLine g.initializer := by
  obtain ⟨line, hline, f, rfl, rfl⟩ := Declaration.mem_all_iff.1 h
  refine ⟨oneLine_ofList.2 f.isSymbol_name.newline_not_mem, oneLine_ofList.2 fun hmem => ?_⟩
  have htail : '\n' ∈ trim f.rest := by
    have hinitial := (List.takeWhile_sublist _).subset ((trim_sublist _).subset hmem)
    rwa [Declaration.Form.global, String.toList_ofList] at hinitial
  refine not_mem_of_mem_lines hline ?_
  simp [Declaration.Form.text, Declaration.Form.initializer, (trim_sublist f.rest).subset htail]

theorem Literal.oneLine_name {l : Literal} (h : l ∈ Literal.all s) : ∀ n ∈ l.name, OneLine n := by
  obtain ⟨line, payload, hl⟩ := Literal.exists_ofPayload?_of_mem_allFrom h
  unfold Literal.ofPayload? at hl
  split at hl
  next => cases hl
  next =>
      obtain rfl := Option.some.inj hl
      intro n hn
      obtain ⟨b, hb, rfl⟩ := Option.map_eq_some_iff.1 hn
      have hbinds := (Declaration.binding?_eq_some_iff Declaration.delimits_blank (by decide)).1
        (show _ = some (b.1, b.2) from hb)
      exact oneLine_ofList.2 hbinds.1.newline_not_mem

/-- What is shown of a listing is on one line, piece by piece. -/
structure OnOneLine (l : Listing) : Prop where
  functions : ∀ f ∈ l.functions, f.OnOneLine
  globals : ∀ g ∈ l.globals, OneLine g.name ∧ OneLine g.initializer
  strings : ∀ c ∈ l.strings, ∀ n ∈ c.name, OneLine n

theorem onOneLine_ofText (text : String) : (ofText text).OnOneLine where
  functions := fun f hf => onOneLine_of_mem_functions hf
  globals := fun g hg => Declaration.oneLine_of_mem_all hg
  strings := by
    intro c hc
    obtain ⟨literal, hliteral, rfl⟩ := List.mem_map.1 hc
    exact Literal.oneLine_name hliteral

end IrSurvey.Listing
