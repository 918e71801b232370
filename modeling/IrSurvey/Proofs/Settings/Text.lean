import IrSurvey.Proofs.Json.Spelling
import IrSurvey.Proofs.Settings.Section
import IrSurvey.Proofs.Yaml.Mapping
import IrSurvey.Settings.Load

/-!
The texts of a content. In each format every content has one, and in all of them it is found again.
-/
namespace IrSurvey.Settings
open Yaml (Node IsBlock KeyText ValueText Written EndsLine IsDocument isPlainWord
  isPlain_of_isPlainWord spaces isAllowed isSpacing unifyBreaks)
open Yaml.Document (keyNode)
open Text (HexDigit hexDigits hexNumber_hexDigits length_hexDigits)

variable {c : Content} {text : String} {format : Format}

/-- The texts of a content. In YAML it is written as a block mapping. -/
def Format.Writes (c : Content) (text : String) : Format → Prop
  | .json => Json.IsText c.toJson text.toList
  | .yaml => ∃ node, c.IsNode node ∧ node.IsText text

theorem Scalar.plain (v : Scalar) : v.toJson.Plain := by
  cases v with
  | null => exact .null
  | bool b => exact .bool b
  | number n => exact .number n
  | text s => exact .string s

theorem plain_membersJson {α : Type} {toJson : α → Json} (h : ∀ a, (toJson a).Plain)
    (members : List (String × α)) : (membersJson toJson members).Plain := by
  refine .object fun m hm => ?_
  obtain ⟨member, -, rfl⟩ := List.mem_map.1 hm
  exact h member.2

theorem Content.plain (c : Content) : c.toJson.Plain := by
  refine plain_membersJson (fun entry => ?_) c
  cases entry with
  | scalar v => exact v.plain
  | record fields => exact plain_membersJson Scalar.plain fields

/-- The settings in a text are those of the content, whatever the format. -/
theorem Format.Writes.settings? (h : format.Writes c text) :
    format.settings? text = Settings.ofJson? c.toJson := by
  cases format with
  | json =>
      have hread : Json.read? text = some c.toJson := Json.IsText.read? h c.plain
      rw [Format.settings?, hread, Option.bind_some]
  | yaml =>
      obtain ⟨node, hnode, htext⟩ := h
      rw [Format.settings?, htext.read?, Option.bind_some, hnode.ofYaml?_eq_ofJson?]

/-! ## A text for every content -/

/-- Characters that a text may hold as they are. -/
def AreSimple (s : List Char) : Prop :=
  ∀ c ∈ s, isAllowed c = true ∧ c ≠ '\r' ∧ c ≠ '\u0085'

instance (s : List Char) : Decidable (AreSimple s) :=
  List.decidableBAll _ s

theorem AreSimple.append {s t : List Char} (hs : AreSimple s) (ht : AreSimple t) :
    AreSimple (s ++ t) := fun c hc =>
  (List.mem_append.1 hc).elim (hs c) (ht c)

theorem AreSimple.cons {x : Char} {s : List Char}
    (hx : isAllowed x = true ∧ x ≠ '\r' ∧ x ≠ '\u0085') (hs : AreSimple s) : AreSimple (x :: s) :=
  List.forall_mem_cons.2 ⟨hx, hs⟩

theorem areSimple_spaces (n : Nat) : AreSimple (spaces n) := by
  intro c hc
  rw [List.eq_of_mem_replicate hc]
  decide

theorem AreSimple.unifyBreaks {s : List Char} (h : AreSimple s) : unifyBreaks s = s := by
  induction s with
  | nil => rfl
  | cons x s ih =>
      obtain ⟨⟨-, hreturn, hline⟩, hs⟩ := List.forall_mem_cons.1 h
      rw [Yaml.unifyBreaks, if_neg (by simp [hreturn, hline]), ih hs]
      rintro r rfl
      exact absurd rfl hreturn

/-- A hexadecimal digit stands for itself everywhere in a text, also in front. -/
theorem plain_spell (d : HexDigit) :
    (isAllowed d.spell = true ∧ d.spell ≠ '\r' ∧ d.spell ≠ '\u0085') ∧
      (!isSpacing d.spell && d.spell ≠ ':') = true ∧ d.spell ∉ Yaml.signs ∧
      d.spell ∉ Yaml.leads := by
  obtain ⟨value, capital⟩ := d
  revert value capital
  decide

/-- A character as its code point in eight digits. -/
def escaped (x : Char) : List Char :=
  '\\' :: 'U' :: (hexDigits 8 x.toNat).map HexDigit.spell

theorem spells_escaped (x : Char) : Yaml.Quoted.Spells x (escaped x) := by
  have hvalid : x.toNat < Nat.pow 16 8 := by
    rcases x.valid with h | h
    · exact Nat.lt_trans h (by decide)
    · exact Nat.lt_trans h.2 (by decide)
  refine .number ?_ (hexNumber_hexDigits hvalid)
  rw [length_hexDigits]
  rfl

theorem areSimple_escaped (x : Char) : AreSimple (escaped x) := by
  refine .cons (by decide) (.cons (by decide) fun y hy => ?_)
  obtain ⟨d, -, rfl⟩ := List.mem_map.1 hy
  exact (plain_spell d).1

/-- Every text can be written between quotes. -/
theorem exists_quoted (s : String) : ∃ w, Written .quoted s w ∧ AreSimple w := by
  have hspells : List.Forall₂ Yaml.Quoted.Spells s.toList (s.toList.map escaped) :=
    List.forall₂_map_right_iff.2 (List.forall₂_same.2 fun x _ => spells_escaped x)
  have hwritten := Written.double hspells
  rw [String.ofList_toList] at hwritten
  refine ⟨_, hwritten, .cons (by decide) (.append ?_ (by decide))⟩
  intro y hy
  obtain ⟨w, hw, hy⟩ := List.mem_flatten.1 hy
  obtain ⟨x, -, rfl⟩ := List.mem_map.1 hw
  exact areSimple_escaped x y hy

theorem exists_spell_of_isDigit {x : Char} (h : x.isDigit = true) :
    ∃ d : HexDigit, d.spell = x := by
  have hvalue : Text.hexValue? x = some (x.toNat - 48) := if_pos h
  obtain ⟨d, hd, -⟩ := Text.hexValue?_eq_some_iff.1 hvalue
  exact ⟨d, hd⟩

/-- A number is a word in YAML. -/
theorem written_literal (n : Json.Numeral) :
    Written .plain n.literal n.chars ∧ AreSimple n.chars := by
  have hsimple : AreSimple ['-', '+', '.', 'e', 'E'] := by decide
  have hsolid : ['-', '+', '.', 'e', 'E'].all (fun x => !isSpacing x && x ≠ ':') = true := by decide
  have hchars : ∀ c ∈ n.chars, (isAllowed c = true ∧ c ≠ '\r' ∧ c ≠ '\u0085') ∧
      (!isSpacing c && c ≠ ':') = true := by
    intro c hc
    rcases n.mem_chars c hc with hc | hc
    · obtain ⟨d, rfl⟩ := exists_spell_of_isDigit hc
      exact ⟨(plain_spell d).1, (plain_spell d).2.1⟩
    · exact ⟨hsimple c hc, List.all_eq_true.1 hsolid c hc⟩
  have hall := List.all_eq_true.2 fun c hc => (hchars c hc).2
  refine ⟨.plain (isPlain_of_isPlainWord ?_), fun c hc => (hchars c hc).1⟩
  obtain ⟨d, ds, hds, hd⟩ := n.exists_digit_whole
  obtain ⟨d, rfl⟩ := exists_spell_of_isDigit hd
  obtain ⟨-, -, hsign, hlead⟩ := plain_spell d
  rw [Json.Numeral.chars, hds] at hall ⊢
  rcases n.sign_cases with h | h
  · rw [h] at hall ⊢
    simp only [List.nil_append, List.cons_append] at hall ⊢
    rw [isPlainWord, hall, decide_eq_true hsign, decide_eq_true hlead]
    rfl
  · rw [h] at hall ⊢
    simp only [List.cons_append, List.nil_append] at hall ⊢
    have hother : d.spell ≠ '-' := fun h => hlead (h ▸ by decide)
    rw [isPlainWord, hall, List.head?_cons, Option.any_some, decide_eq_true hother]
    rfl

theorem written_bool (b : Bool) :
    ∃ s ∈ boolWords b, Written .plain s s.toList ∧ AreSimple s.toList := by
  cases b with
  | true => exact ⟨"true", by decide, .plain (isPlain_of_isPlainWord (by decide)), by decide⟩
  | false => exact ⟨"false", by decide, .plain (isPlain_of_isPlainWord (by decide)), by decide⟩

/-- The text of a value on the line of its key. -/
theorem Scalar.exists_text (v : Scalar) :
    ∃ node w, v.IsNode node ∧ ValueText node w ∧ AreSimple w := by
  have hscalar : ∀ {style s w}, v.IsNode (.scalar none none style s) → Written style s w →
      AreSimple w → ∃ node w, v.IsNode node ∧ ValueText node w ∧ AreSimple w :=
    fun hnode hw hsimple =>
      ⟨_, _, hnode, .scalar (j := 0) hw, (areSimple_spaces 1).append hsimple⟩
  cases v with
  | null => exact ⟨.empty, [], .null (by decide), .omitted, nofun⟩
  | bool b =>
      obtain ⟨s, hs, hw, hsimple⟩ := written_bool b
      exact hscalar (.bool hs) hw hsimple
  | number n => exact hscalar (.number n) (written_literal n).1 (written_literal n).2
  | text s =>
      obtain ⟨w, hw, hsimple⟩ := exists_quoted s
      exact hscalar (.quoted s) hw hsimple

theorem endsLine_break : EndsLine ['\n'] :=
  .mk (f := []) .nil rfl .nil

/-- The text of a key, at some column. -/
theorem exists_keyText (n : Nat) (key : String) :
    ∃ k, KeyText n .quoted key k ∧ AreSimple k := by
  obtain ⟨w, hw, hsimple⟩ := exists_quoted key
  have hcolon : AreSimple [':'] := by decide
  have hbreak : AreSimple ['\n'] := by decide
  have hbelow := hbreak.append ((areSimple_spaces n).append hcolon)
  exact ⟨_, .signed (j := 0) hw endsLine_break,
    .cons (by decide) ((areSimple_spaces 1).append (hsimple.append hbelow))⟩

/-- A value that can be written below a key. -/
def HasBlock {α : Type} (isNode : α → Node → Prop) (n : Nat) (m : String × α) : Prop :=
  ∃ node s, isNode m.2 node ∧ IsBlock n [(keyNode .quoted m.1, node)] s ∧ AreSimple s

theorem exists_block {α : Type} {isNode : α → Node → Prop} {n : Nat} {members : List (String × α)}
    (hne : members ≠ []) (h : ∀ m ∈ members, HasBlock isNode n m) :
    ∃ nodes s, AreNodes isNode members nodes ∧ IsBlock n nodes s ∧ AreSimple s := by
  induction members with
  | nil => exact absurd rfl hne
  | cons m members ih =>
      obtain ⟨node, s, hnode, hblock, hsimple⟩ := h m List.mem_cons_self
      by_cases hmembers : members = []
      · subst hmembers
        exact ⟨_, s, .cons .quoted hnode .nil, hblock, hsimple⟩
      · obtain ⟨nodes, t, hnodes, hblock', hsimple'⟩ :=
          ih hmembers fun m' hm' => h m' (List.mem_cons_of_mem m hm')
        have hbreak : AreSimple ['\n'] := by decide
        exact ⟨_, _, .cons .quoted hnode hnodes, hblock.append endsLine_break hblock',
          hsimple.append (hbreak.append hsimple')⟩

theorem hasBlock_scalar (n : Nat) (key : String) (v : Scalar) :
    HasBlock Scalar.IsNode n (key, v) := by
  obtain ⟨k, hk, hsimple⟩ := exists_keyText n key
  obtain ⟨node, w, hnode, hw, hsimple'⟩ := v.exists_text
  exact ⟨node, _, hnode, .scalar hk hw, (areSimple_spaces n).append (hsimple.append hsimple')⟩

theorem hasBlock_entry (key : String) (entry : Entry) : HasBlock Entry.IsNode 0 (key, entry) := by
  cases entry with
  | scalar v =>
      obtain ⟨node, s, hnode, hblock⟩ := hasBlock_scalar 0 key v
      exact ⟨node, s, .scalar hnode, hblock⟩
  | record fields =>
      obtain ⟨k, hk, hsimple⟩ := exists_keyText 0 key
      by_cases hfields : fields = []
      · subst hfields
        exact ⟨.empty, _, .empty, .scalar hk .omitted, hsimple.append nofun⟩
      · obtain ⟨nodes, s, hnodes, hblock, hsimple'⟩ :=
          exists_block hfields fun m _ => hasBlock_scalar 1 m.1 m.2
        have hbreak : AreSimple ['\n'] := by decide
        exact ⟨_, _, .record hnodes, .mapping hk endsLine_break Nat.zero_lt_one hblock,
          hsimple.append (hbreak.append hsimple')⟩

/-- In each format every content can be written. -/
theorem Content.exists_text (c : Content) (format : Format) : ∃ text, format.Writes c text := by
  cases format with
  | json => exact ⟨c.toJson.render, Json.isText_render c.plain⟩
  | yaml =>
      have hdocument : ∃ node s, c.IsNode node ∧ IsDocument node s ∧ AreSimple s := by
        by_cases hc : c = []
        · subst hc
          exact ⟨.empty, _, .empty, .empty .nil (.mk 0 .nil), nofun⟩
        · obtain ⟨nodes, s, hnodes, hblock, hsimple⟩ :=
            exists_block hc fun m _ => hasBlock_entry m.1 m.2
          exact ⟨_, _, .mapping hnodes, .bare .nil hblock (.remark .nil), hsimple.append nofun⟩
      obtain ⟨node, s, hnode, hs, hsimple⟩ := hdocument
      refine ⟨String.ofList s, node, hnode, ?_, ?_⟩
      · rw [String.toList_ofList]
        exact fun x hx => (hsimple x hx).1
      · rw [String.toList_ofList, hsimple.unifyBreaks]
        exact hs

/-! ## One content in both formats -/

def shortSource : Profile where
  maxLines := 12
  showLabels := false

def shortFields : List (String × Scalar) :=
  [("emit_block_labels", .bool false), ("max_lines", .number (.ofNat 12))]

/-- A section behind a key that no one asks for. -/
def shortContent : Content :=
  [("x", .scalar (.number (.ofNat 1))), ("source", .record shortFields)]

/-- A section with a field too few. -/
def partContent : Content :=
  [("report", .record [("max_lines", .number (.ofNat 1))])]

theorem shortContent_describes : shortContent.Describes none (some shortSource) := by
  have hsection : IsSection shortSource shortFields :=
    ⟨by decide, [], .swap _ _ [], List.forall_mem_nil _⟩
  exact ⟨[], [("source", .record shortFields)], [("x", .scalar (.number (.ofNat 1)))], .missing,
    .written hsection, .swap _ _ [], by decide⟩

theorem partContent_faulty : partContent.Faulty :=
  ⟨"report", by decide, .inr ⟨_, List.mem_cons_self, "emit_block_labels", by decide, by decide⟩⟩

theorem writes_json_shortContent : Format.json.Writes shortContent
    "\x7b\"x\":1,\"source\":\x7b\"emit_block_labels\":false,\"max_lines\":12\x7d\x7d" := by
  have hrender : shortContent.toJson.render =
      "\x7b\"x\":1,\"source\":\x7b\"emit_block_labels\":false,\"max_lines\":12\x7d\x7d" := by
    decide +kernel
  rw [← hrender]
  exact Json.isText_render shortContent.plain

theorem writes_json_partContent :
    Format.json.Writes partContent "\x7b\"report\":\x7b\"max_lines\":1\x7d\x7d" := by
  have hrender : partContent.toJson.render = "\x7b\"report\":\x7b\"max_lines\":1\x7d\x7d" := by
    decide +kernel
  rw [← hrender]
  exact Json.isText_render partContent.plain

theorem writes_yaml_shortContent : Format.yaml.Writes shortContent
    "x: 1\nsource: # shown\n  'emit_block_labels': false\n  max_lines: 12\n" := by
  have hfields : AreNodes Scalar.IsNode shortFields _ :=
    .cons .quoted (.bool (b := false) (s := "false") (by decide))
      (.cons .plain (.number (.ofNat 12)) .nil)
  have hnode : shortContent.IsNode _ :=
    .mapping (.cons .plain (.scalar (.number (.ofNat 1))) (.cons .plain (.record hfields) .nil))
  have hlabels : IsBlock 2 _ _ :=
    .scalar (.bare (j := 0) (.single (s := "emit_block_labels".toList) (by decide)) (by decide))
      (.scalar (j := 0) (.plain (s := "false".toList) (isPlain_of_isPlainWord (by decide))))
  have hlines : IsBlock 2 _ _ :=
    .scalar (.bare (j := 0)
        (.plain (s := "max_lines".toList) (isPlain_of_isPlainWord (by decide))) (by decide))
      (.scalar (j := 0) (written_literal (.ofNat 12)).1)
  have hx : IsBlock 0 _ _ :=
    .scalar (.bare (j := 0)
        (.plain (s := ['x']) (isPlain_of_isPlainWord (by decide))) (by decide))
      (.scalar (j := 0) (written_literal (.ofNat 1)).1)
  have hremark : EndsLine (" # shown".toList ++ '\n' :: []) :=
    .mk (.mk 0 (.sign (s := " shown".toList) (by decide))) rfl .nil
  have hsource : IsBlock 0 _ _ :=
    .mapping (.bare (j := 0)
        (.plain (s := "source".toList) (isPlain_of_isPlainWord (by decide))) (by decide))
      hremark (by decide) (hlabels.append endsLine_break hlines)
  have hdocument := IsDocument.bare .nil (hx.append endsLine_break hsource)
    (.lines endsLine_break (.mk 0 .nil))
  refine ⟨_, hnode, List.all_eq_true.1 (by decide +kernel), ?_⟩
  convert hdocument using 1
  · rfl
  · decide +kernel

end IrSurvey.Settings
