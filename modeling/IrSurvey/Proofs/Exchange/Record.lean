import IrSurvey.Exchange.Record
import IrSurvey.Proofs.Json.Spelling

/-!
Records and their fields. A record that has each of its fields once gives them all back, and so do
the numbers, lists and optional texts in them.
-/
namespace IrSurvey

section Field

variable {α : Type} {members : List (String × α)} {key other : String} {v : α}

theorem onlyField?_cons_self (h : ∀ m ∈ members, m.1 ≠ key) :
    onlyField? ((key, v) :: members) key = some (some v) := by
  have hnone : members.filter (·.1 = key) = [] := by
    rw [List.filter_eq_nil_iff]
    intro m hm
    simpa using h m hm
  rw [onlyField?, List.filter_cons_of_pos (by simp), hnone]

theorem onlyField?_cons_of_ne (h : other ≠ key) :
    onlyField? ((other, v) :: members) key = onlyField? members key := by
  rw [onlyField?, List.filter_cons_of_neg (by simpa using h), onlyField?]

/-- Members under other keys say nothing about a field. -/
theorem onlyField?_append_of_ne {others : List (String × α)} (h : ∀ m ∈ others, m.1 ≠ key) :
    onlyField? (members ++ others) key = onlyField? members key := by
  have hnone : others.filter (·.1 = key) = [] := by
    rw [List.filter_eq_nil_iff]
    intro m hm
    simpa using h m hm
  rw [onlyField?, List.filter_append, hnone, List.append_nil, onlyField?]

/-- The order of members says nothing about a field. -/
theorem onlyField?_perm {members' : List (String × α)} (h : members.Perm members') (key : String) :
    onlyField? members key = onlyField? members' key := by
  have hfilter := h.filter (·.1 = key)
  unfold onlyField?
  generalize members.filter (·.1 = key) = found at hfilter
  generalize members'.filter (·.1 = key) = found' at hfilter
  rcases found with _ | ⟨m, _ | ⟨n, found⟩⟩
  · rw [hfilter.nil_eq]
  · rw [hfilter.singleton_eq]
  · rcases found' with _ | ⟨m', _ | ⟨n', found'⟩⟩
    · exact absurd hfilter.length_eq (by simp)
    · exact absurd hfilter.length_eq (by simp)
    · rfl

theorem length_filter_key (members : List (String × α)) (key : String) :
    (members.filter (·.1 = key)).length = (members.map Prod.fst).count key := by
  rw [List.count_eq_countP, List.countP_map, List.countP_eq_length_filter]
  congr 1

/-- A key that is repeated gives no field. -/
theorem onlyField?_of_two_le (h : 2 ≤ (members.map Prod.fst).count key) :
    onlyField? members key = none := by
  have hlength := length_filter_key members key
  unfold onlyField?
  generalize members.filter (·.1 = key) = found at hlength
  rcases found with _ | ⟨m, _ | ⟨n, found⟩⟩
  · rw [← hlength] at h
    cases h
  · rw [← hlength, List.length_singleton] at h
    omega
  · rfl

/-- A field is found only under a key that stands there once. -/
theorem count_of_onlyField?_eq_some (h : onlyField? members key = some (some v)) :
    (members.map Prod.fst).count key = 1 := by
  have hlength := length_filter_key members key
  unfold onlyField? at h
  generalize members.filter (·.1 = key) = found at h hlength
  rcases found with _ | ⟨m, _ | ⟨n, found⟩⟩
  · cases h
  · exact hlength.symm
  · cases h

/-- What stands under a key is found there, unless the key is repeated. -/
theorem onlyField?_of_mem (h : (key, v) ∈ members) :
    onlyField? members key = none ∨ onlyField? members key = some (some v) := by
  have hmem : (key, v) ∈ members.filter (·.1 = key) := List.mem_filter.2 ⟨h, by simp⟩
  unfold onlyField?
  generalize members.filter (·.1 = key) = found at hmem
  rcases found with _ | ⟨m, _ | ⟨n, found⟩⟩
  · cases hmem
  · rw [← List.mem_singleton.1 hmem]
    exact .inr rfl
  · exact .inl rfl

theorem mapM_congr {α β : Type} {l : List α} {f g : α → Option β} (h : ∀ a ∈ l, f a = g a) :
    l.mapM f = l.mapM g := by
  induction l with
  | nil => rfl
  | cons a l ih =>
      rw [List.mapM_cons, List.mapM_cons, h a List.mem_cons_self,
        ih fun b hb => h b (List.mem_cons_of_mem a hb)]

theorem mapM_onlyField?_zip {keys : List String} {values : List α} (hkeys : keys.Nodup)
    (hlength : keys.length = values.length) :
    keys.mapM (onlyField? (keys.zip values)) = some (values.map some) := by
  induction keys generalizing values with
  | nil =>
      obtain rfl := List.length_eq_zero_iff.1 hlength.symm
      rfl
  | cons key keys ih =>
      cases values with
      | nil => cases hlength
      | cons v values =>
          obtain ⟨hkey, hkeys⟩ := List.nodup_cons.1 hkeys
          have hfirst : onlyField? ((key, v) :: keys.zip values) key = some (some v) :=
            onlyField?_cons_self fun m hm he => hkey (he ▸ (List.of_mem_zip hm).1)
          have hrest : keys.mapM (onlyField? ((key, v) :: keys.zip values)) =
              keys.mapM (onlyField? (keys.zip values)) := by
            refine mapM_congr fun other hother => onlyField?_cons_of_ne ?_
            rintro rfl
            exact hkey hother
          rw [List.zip_cons_cons, List.mapM_cons, hfirst, hrest,
            ih hkeys (Nat.succ.inj hlength)]
          rfl

end Field

namespace Json

/-- The fields of an object that writes each of its keys once. -/
theorem fields?_zip (least : Nat) (keys : List String) (values : List Json) (hkeys : keys.Nodup)
    (hlength : keys.length = values.length) :
    (object (keys.zip values)).fields? least keys = some (values.map some) :=
  mapM_onlyField?_zip hkeys hlength

theorem plain_zip (keys : List String) (values : List Json) (h : ∀ v ∈ values, v.Plain) :
    (object (keys.zip values)).Plain :=
  .object fun _ hm => h _ (List.of_mem_zip hm).2

theorem word?_ofNat {n : Nat} (h : n < UInt64.size) : (ofNat n).word? = some n := by
  have hread : (ofNat n).nat? = some n := by
    show Text.numberOf? 10 (toString n).toList = some n
    rw [Text.toList_toString]
    exact Text.numberOf?_toDigits (by decide) (by decide) n
  rw [word?, hread]
  exact Option.filter_some_pos (by simpa using h)

theorem list?_map {α : Type} {toJson : α → Json} {ofJson? : Json → Option α} {l : List α}
    (h : ∀ a ∈ l, ofJson? (toJson a) = some a) :
    (array (l.map toJson)).list? ofJson? = some l :=
  mapM_map_eq_some h

theorem plain_map {α : Type} {toJson : α → Json} {l : List α} (h : ∀ a ∈ l, (toJson a).Plain) :
    (array (l.map toJson)).Plain := by
  refine .array fun v hv => ?_
  obtain ⟨a, ha, rfl⟩ := List.mem_map.1 hv
  exact h a ha

theorem optional?_ofOption (s : Option String) :
    optional? string? (some (ofOption string s)) = some s := by
  cases s <;> rfl

theorem plain_ofOption (s : Option String) : (ofOption string s).Plain := by
  cases s with
  | none => exact .null
  | some s => exact .string s

end Json
end IrSurvey
