import IrSurvey.Proofs.Settings.Content

/-!
Sections of a content. Those that are written are found among keys that no one asks for, with a
default for each one that is left out. No settings are found in a content that repeats a section or
that leaves out or repeats a field of one.
-/
namespace IrSurvey.Settings

def sectionKeys : List String :=
  ["report", "source"]

def fieldKeys : List String :=
  ["max_lines", "emit_block_labels"]

/-- Both fields of a profile. -/
def profileFields (p : Profile) : List (String × Scalar) :=
  [("max_lines", .number (.ofNat p.maxLines)), ("emit_block_labels", .bool p.showLabels)]

/-- The fields of a section, in any order and among others. -/
structure IsSection (p : Profile) (fields : List (String × Scalar)) : Prop where
  fits : p.maxLines < UInt64.size
  fields : ∃ others, fields.Perm (profileFields p ++ others) ∧ ∀ m ∈ others, m.1 ∉ fieldKeys

/-- A section under its key, or nothing. -/
inductive IsGiven (key : String) : Option Profile → Content → Prop
  | missing : IsGiven key none []
  | written {p : Profile} {fields : List (String × Scalar)} : IsSection p fields →
      IsGiven key (some p) [(key, .record fields)]

/-- Some of the sections, in any order and among other keys. -/
def Content.Describes (c : Content) (report source : Option Profile) : Prop :=
  ∃ r s others, IsGiven "report" report r ∧ IsGiven "source" source s ∧
    c.Perm (r ++ (s ++ others)) ∧ ∀ m ∈ others, m.1 ∉ sectionKeys

/-- A section is repeated, or a field of one is left out or repeated. -/
def Content.Faulty (c : Content) : Prop :=
  ∃ key ∈ sectionKeys, 2 ≤ (c.map Prod.fst).count key ∨
    ∃ fields, (key, .record fields) ∈ c ∧ ∃ field ∈ fieldKeys, (fields.map Prod.fst).count field ≠ 1

theorem map_fst_map {α β : Type} (f : α → β) (members : List (String × α)) :
    (members.map fun m => (m.1, f m.2)).map Prod.fst = members.map Prod.fst := by
  rw [List.map_map]
  rfl

theorem map_key_ne {α β : Type} {f : α → β} {members : List (String × α)} {key : String}
    (h : ∀ m ∈ members, m.1 ≠ key) : ∀ m ∈ members.map fun m => (m.1, f m.2), m.1 ≠ key := by
  intro m hm
  obtain ⟨other, hother, rfl⟩ := List.mem_map.1 hm
  exact h other hother

theorem IsSection.ofJson? {p : Profile} {fields : List (String × Scalar)} (h : IsSection p fields) :
    Profile.ofJson? (Entry.record fields).toJson = some p := by
  obtain ⟨hfits, others, hperm, hothers⟩ := h
  have hfield : ∀ key ∈ fieldKeys, onlyField? (fields.map fun m => (m.1, m.2.toJson)) key =
      onlyField? ((profileFields p).map fun m => (m.1, m.2.toJson)) key := by
    intro key hkey
    rw [onlyField?_perm (hperm.map fun m => (m.1, m.2.toJson)), List.map_append]
    exact onlyField?_append_of_ne (map_key_ne fun m hm he => hothers m hm (he ▸ hkey))
  have hlines := hfield "max_lines" (by decide)
  have hlabels := hfield "emit_block_labels" (by decide)
  have hlines' : onlyField? ((profileFields p).map fun m => (m.1, m.2.toJson)) "max_lines" =
      some (some (.ofNat p.maxLines)) := by
    simp [profileFields, onlyField?, Scalar.toJson, Json.Numeral.literal_ofNat, Json.ofNat]
  have hlabels' : onlyField? ((profileFields p).map fun m => (m.1, m.2.toJson))
      "emit_block_labels" = some (some (.bool p.showLabels)) := by
    simp [profileFields, onlyField?, Scalar.toJson]
  rw [Profile.ofJson?, Entry.toJson, membersJson, Json.fields?]
  simp only [List.mapM_cons, List.mapM_nil, hlines, hlines', hlabels, hlabels']
  show ((Json.ofNat p.maxLines).word?.bind fun n => some (Profile.mk n p.showLabels)) = some p
  rw [Json.word?_ofNat hfits]
  rfl

/-- What is written under a key among others is what the settings take from there. -/
theorem IsGiven.field {key : String} {p : Option Profile} {c written others : Content}
    (h : IsGiven key p written) (hothers : ∀ m ∈ others, m.1 ≠ key)
    (hc : c.Perm (written ++ others)) :
    ∃ x, onlyField? (c.map fun m => (m.1, m.2.toJson)) key = some x ∧
      ∀ standard, x.elim (some standard) Profile.ofJson? = some (p.getD standard) := by
  rw [onlyField?_perm (hc.map fun m => (m.1, m.2.toJson)), List.map_append,
    onlyField?_append_of_ne (map_key_ne hothers)]
  cases h with
  | missing => exact ⟨none, rfl, fun _ => rfl⟩
  | @written p fields hsection =>
      exact ⟨_, onlyField?_cons_self nofun, fun _ => hsection.ofJson?⟩

theorem IsGiven.key_ne {key other : String} {p : Option Profile} {written : Content}
    (h : IsGiven key p written) (hne : key ≠ other) : ∀ m ∈ written, m.1 ≠ other := by
  cases h with
  | missing => exact List.forall_mem_nil _
  | written => exact List.forall_mem_singleton.2 hne

/-- Sections that are written are found, and a default stands for each other one. -/
theorem Content.Describes.ofJson? {c : Content} {report source : Option Profile}
    (h : c.Describes report source) :
    Settings.ofJson? c.toJson =
      some { report := report.getD .report, source := source.getD .source } := by
  obtain ⟨r, s, others, hr, hs, hc, hothers⟩ := h
  have hreport : ∀ m ∈ s ++ others, m.1 ≠ "report" := by
    intro m hm
    rcases List.mem_append.1 hm with hm | hm
    · exact hs.key_ne (by decide) m hm
    · exact fun he => hothers m hm (he ▸ by decide)
  have hsource : ∀ m ∈ r ++ others, m.1 ≠ "source" := by
    intro m hm
    rcases List.mem_append.1 hm with hm | hm
    · exact hr.key_ne (by decide) m hm
    · exact fun he => hothers m hm (he ▸ by decide)
  obtain ⟨x, hx, hxProfile⟩ := hr.field hreport hc
  obtain ⟨y, hy, hyProfile⟩ := hs.field hsource (hc.trans (List.perm_append_comm_assoc r s others))
  rw [Settings.ofJson?, Content.toJson, membersJson, Json.fields?]
  simp only [List.mapM_cons, List.mapM_nil, hx, hy]
  show ofSections? Profile.ofJson? x y = _
  rw [ofSections?, hxProfile, hyProfile]
  rfl

/-- Without a section under a key that is there, or with the key repeated, there are no settings. -/
theorem ofJson?_eq_none {members : List (String × Json)} {key : String} (hkey : key ∈ sectionKeys)
    (h : ∀ x, onlyField? members key = some x → ∃ v, x = some v ∧ Profile.ofJson? v = none) :
    Settings.ofJson? (.object members) = none := by
  rw [Settings.ofJson?, Json.fields?]
  simp only [List.mapM_cons, List.mapM_nil]
  cases hreport : onlyField? members "report" with
  | none => rfl
  | some x =>
      cases hsource : onlyField? members "source" with
      | none => rfl
      | some y =>
          show ofSections? Profile.ofJson? x y = none
          simp only [sectionKeys, List.mem_cons, List.not_mem_nil, or_false] at hkey
          rcases hkey with rfl | rfl
          · obtain ⟨v, rfl, hv⟩ := h x hreport
            rw [ofSections?, Option.elim_some, hv]
            rfl
          · obtain ⟨v, rfl, hv⟩ := h y hsource
            rw [ofSections?, Option.elim_some, hv]
            cases x.elim (some Profile.report) Profile.ofJson? <;> rfl

/-- A section that does not have each of its fields once is refused. -/
theorem ofJson?_of_count_ne_one {fields : List (String × Scalar)} {field : String}
    (hfield : field ∈ fieldKeys) (h : (fields.map Prod.fst).count field ≠ 1) :
    Profile.ofJson? (Entry.record fields).toJson = none := by
  have honce : ∀ {v}, onlyField? (fields.map fun m => (m.1, m.2.toJson)) field ≠ some (some v) := by
    intro v hv
    have hcount := count_of_onlyField?_eq_some hv
    rw [map_fst_map] at hcount
    exact h hcount
  rw [Profile.ofJson?, Entry.toJson, membersJson, Json.fields?]
  simp only [List.mapM_cons, List.mapM_nil]
  simp only [fieldKeys, List.mem_cons, List.not_mem_nil, or_false] at hfield
  generalize (fields.map fun m => (m.1, m.2.toJson)) = members at honce
  generalize hlines : onlyField? members "max_lines" = lines
  generalize hlabels : onlyField? members "emit_block_labels" = labels
  rcases lines with _ | _ | v <;> rcases labels with _ | _ | w
  case some.some.some.some =>
    rcases hfield with rfl | rfl
    · exact absurd hlines honce
    · exact absurd hlabels honce
  all_goals rfl

theorem Content.Faulty.ofJson? {c : Content} (h : c.Faulty) : Settings.ofJson? c.toJson = none := by
  obtain ⟨key, hkey, hcount | ⟨fields, hfields, field, hfield, hcount⟩⟩ := h
  · refine ofJson?_eq_none hkey fun x hx => ?_
    rw [onlyField?_of_two_le (by rwa [map_fst_map])] at hx
    cases hx
  · refine ofJson?_eq_none hkey fun x hx => ?_
    have hmem : (key, (Entry.record fields).toJson) ∈ c.map fun m => (m.1, m.2.toJson) :=
      List.mem_map_of_mem (f := fun m : String × Entry => (m.1, m.2.toJson)) hfields
    rcases onlyField?_of_mem hmem with h | h
    · rw [h] at hx
      cases hx
    · rw [h] at hx
      exact ⟨_, (Option.some.inj hx).symm, ofJson?_of_count_ne_one hfield hcount⟩

end IrSurvey.Settings
