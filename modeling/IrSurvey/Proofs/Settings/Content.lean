import IrSurvey.Proofs.Exchange.Record
import IrSurvey.Proofs.Settings.Scalar
import IrSurvey.Proofs.Yaml.Document

/-!
What a settings file says, whatever its format: keys, and under each a value or a record of values.
A content is a JSON value and a YAML node, and both formats find the same settings in it.
-/
namespace IrSurvey.Settings
open Yaml (Node Style)
open Yaml.Document (keyNode)

inductive Entry
  | scalar (v : Scalar)
  /-- Fields under a key. -/
  | record (fields : List (String × Scalar))

/-- Keys and what stands under them, in the order of the file. Keys may be repeated. -/
abbrev Content := List (String × Entry)

/-- Members with values that are written in some way. -/
def membersJson {α : Type} (toJson : α → Json) (members : List (String × α)) : Json :=
  .object (members.map fun m => (m.1, toJson m.2))

def Entry.toJson : Entry → Json
  | .scalar v => v.toJson
  | .record fields => membersJson Scalar.toJson fields

def Content.toJson (c : Content) : Json :=
  membersJson Entry.toJson c

/-- The nodes of members: a key stands there in some style, and its value as some node for it. -/
def AreNodes {α : Type} (isNode : α → Node → Prop) (members : List (String × α))
    (nodes : List (Node × Node)) : Prop :=
  List.Forall₂ (fun m node => (∃ style, node.1 = keyNode style m.1) ∧ isNode m.2 node.2) members
    nodes

theorem AreNodes.cons {α : Type} {isNode : α → Node → Prop} {m : String × α} {node : Node}
    {members : List (String × α)} {nodes : List (Node × Node)} (style : Style)
    (hm : isNode m.2 node) (h : AreNodes isNode members nodes) :
    AreNodes isNode (m :: members) ((keyNode style m.1, node) :: nodes) :=
  List.Forall₂.cons ⟨⟨style, rfl⟩, hm⟩ h

/-- A record without fields leaves the place of its value empty. -/
inductive Entry.IsNode : Entry → Node → Prop
  | scalar {v : Scalar} {node : Node} : v.IsNode node → IsNode (.scalar v) node
  | empty : IsNode (.record []) .empty
  | record {fields : List (String × Scalar)} {nodes : List (Node × Node)} :
      AreNodes Scalar.IsNode fields nodes → IsNode (.record fields) (.mapping none nodes)

/-- A content without entries leaves the document empty. -/
inductive Content.IsNode : Content → Node → Prop
  | empty : IsNode [] .empty
  | mapping {c : Content} {nodes : List (Node × Node)} : AreNodes Entry.IsNode c nodes →
      IsNode c (.mapping none nodes)

/-! ## Both formats find the same settings -/

/-- Members with the same keys, and with values in a relation. -/
def AreMembers {α β : Type} (R : α → β → Prop) (members : List (String × α))
    (members' : List (String × β)) : Prop :=
  List.Forall₂ (fun m m' => m.1 = m'.1 ∧ R m.2 m'.2) members members'

/-- Related members say the same about a field. -/
theorem AreMembers.onlyField? {α β : Type} {R : α → β → Prop} {members : List (String × α)}
    {members' : List (String × β)} (h : AreMembers R members members') (key : String) :
    Option.Rel (Option.Rel R) (onlyField? members key) (onlyField? members' key) := by
  have hfilter : AreMembers R (members.filter (·.1 = key)) (members'.filter (·.1 = key)) := by
    refine List.rel_filter ?_ h
    rintro m m' ⟨hkey, -⟩
    simp [hkey]
  unfold IrSurvey.onlyField?
  generalize members.filter (·.1 = key) = found at hfilter
  generalize members'.filter (·.1 = key) = found' at hfilter
  cases hfilter with
  | nil => exact .some .none
  | cons hm hrest =>
      cases hrest with
      | nil => exact .some (.some hm.2)
      | cons => exact .none

/-- Related members give related fields of a record, or none. -/
theorem AreMembers.fields {α β : Type} {R : α → β → Prop} {members : List (String × α)}
    {members' : List (String × β)} (h : AreMembers R members members') (first second : String) :
    ([first, second].mapM (IrSurvey.onlyField? members) = none ∧
      [first, second].mapM (IrSurvey.onlyField? members') = none) ∨
    ∃ x y x' y', [first, second].mapM (IrSurvey.onlyField? members) = some [x, y] ∧
      [first, second].mapM (IrSurvey.onlyField? members') = some [x', y'] ∧
      Option.Rel R x x' ∧ Option.Rel R y y' := by
  have hfirst := h.onlyField? first
  have hsecond := h.onlyField? second
  simp only [List.mapM_cons, List.mapM_nil]
  generalize IrSurvey.onlyField? members first = a at hfirst
  generalize IrSurvey.onlyField? members' first = a' at hfirst
  generalize IrSurvey.onlyField? members second = b at hsecond
  generalize IrSurvey.onlyField? members' second = b' at hsecond
  cases hfirst with
  | none => exact .inl ⟨rfl, rfl⟩
  | some hx =>
      cases hsecond with
      | none => exact .inl ⟨rfl, rfl⟩
      | some hy => exact .inr ⟨_, _, _, _, rfl, rfl, hx, hy⟩

/-- The members of a node are those that it is written for. -/
theorem AreNodes.members? {α : Type} {isNode : α → Node → Prop} {members : List (String × α)}
    {nodes : List (Node × Node)} (h : AreNodes isNode members nodes) (document : Node) :
    ∃ members', document.members? (.mapping none nodes) = some members' ∧
      AreMembers isNode members members' := by
  show ∃ members', (nodes.mapM fun node => (document.keyText? node.1).map (·, node.2)) =
    some members' ∧ AreMembers isNode members members'
  induction h with
  | nil => exact ⟨[], rfl, .nil⟩
  | @cons m node members nodes hm _ ih =>
      obtain ⟨⟨style, hkey⟩, hvalue⟩ := hm
      obtain ⟨members', hmembers', hrel⟩ := ih
      obtain ⟨key, value⟩ := node
      obtain rfl : key = keyNode style m.1 := hkey
      refine ⟨(m.1, value) :: members', ?_, .cons ⟨rfl, hvalue⟩ hrel⟩
      rw [List.mapM_cons, hmembers']
      rfl

/-- Members of a JSON object and their keys. -/
theorem AreMembers.map {α β γ : Type} {R : α → β → Prop} {S : γ → β → Prop} {f : α → γ}
    {members : List (String × α)} {members' : List (String × β)} (h : AreMembers R members members')
    (hf : ∀ a b, R a b → S (f a) b) :
    AreMembers S (members.map fun m => (m.1, f m.2)) members' := by
  refine List.forall₂_map_left_iff.2 (h.imp ?_)
  rintro m m' ⟨hkey, hm⟩
  exact ⟨hkey, hf _ _ hm⟩

/-- A scalar is no section, also where it is left out. -/
theorem ofYaml?_scalar (document : Node) (style : Style) (text : String) :
    Profile.ofYaml? document (.scalar none none style text) = none := by
  have hmembers : document.members? (.scalar none none style text) =
      if style = .plain ∧ text = "" then some [] else none := rfl
  rw [Profile.ofYaml?, Node.fields?, hmembers]
  split
  next h =>
      split at h
      · cases h
      · cases h
  next => rfl

/-- A section holds the same profile in both formats. -/
theorem Entry.IsNode.ofYaml?_eq_ofJson? {entry : Entry} {node : Node} (h : entry.IsNode node)
    (document : Node) : Profile.ofYaml? document node = Profile.ofJson? entry.toJson := by
  cases h with
  | @scalar v node hv =>
      have hjson : Profile.ofJson? v.toJson = none := by
        cases v <;> rfl
      have hyaml : Profile.ofYaml? document node = none := by
        cases hv <;> exact ofYaml?_scalar document _ _
      exact hyaml.trans hjson.symm
  | empty => exact ofYaml?_scalar document .plain ""
  | @record fields nodes hfields =>
      obtain ⟨members, hmembers, hrel⟩ := hfields.members? document
      have hagrees := hrel.map (S := Agrees document) fun v node hv => hv.agrees document
      rw [Profile.ofYaml?, Node.fields?, hmembers, Option.bind_some, Profile.ofJson?, Entry.toJson,
        membersJson, Json.fields?]
      rcases hagrees.fields "max_lines" "emit_block_labels" with
        ⟨hjson, hyaml⟩ | ⟨x, y, x', y', hjson, hyaml, hx, hy⟩
      · rw [hjson, hyaml]
      · rw [hjson, hyaml]
        cases hx with
        | none => rfl
        | some hx =>
            cases hy with
            | none => rfl
            | some hy => simp only [hx.word, hy.bool]

/-- A document gives the same settings in both formats. -/
theorem Content.IsNode.ofYaml?_eq_ofJson? {c : Content} {node : Node} (h : c.IsNode node) :
    Settings.ofYaml? node = Settings.ofJson? c.toJson := by
  cases h with
  | empty => rfl
  | @mapping c nodes hc =>
      obtain ⟨members, hmembers, hrel⟩ := hc.members? (.mapping none nodes)
      have hagrees := hrel.map (S := fun v node =>
          Profile.ofYaml? (.mapping none nodes) node = Profile.ofJson? v)
        fun entry node h => h.ofYaml?_eq_ofJson? (.mapping none nodes)
      rw [Settings.ofYaml?, Node.fields?, hmembers, Option.bind_some, Settings.ofJson?,
        Content.toJson, membersJson, Json.fields?]
      rcases hagrees.fields "report" "source" with
        ⟨hjson, hyaml⟩ | ⟨x, y, x', y', hjson, hyaml, hx, hy⟩
      · rw [hjson, hyaml]
      · have hsection : ∀ {x x'} {standard : Profile}, Option.Rel (fun v node =>
            Profile.ofYaml? (.mapping none nodes) node = Profile.ofJson? v) x x' →
              x'.elim (some standard) (Profile.ofYaml? (.mapping none nodes)) =
                x.elim (some standard) Profile.ofJson? := by
          rintro x x' standard (h | _)
          · exact h
          · rfl
        rw [hjson, hyaml]
        show ofSections? _ _ _ = ofSections? _ _ _
        rw [ofSections?, ofSections?, hsection hx, hsection hy]

end IrSurvey.Settings
