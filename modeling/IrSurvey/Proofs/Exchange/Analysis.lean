import IrSurvey.Code.Source
import IrSurvey.Exchange.Analysis
import IrSurvey.Proofs.Exchange.Listing
import IrSurvey.Proofs.Listing.Size
import IrSurvey.Proofs.Marker.Counts

/-!
Analyses in JSON. An analysis is read back as it was written if its numbers have 64 bits, and an
analysis that is drawn from a text has no others, unless it counts more instructions than that.
-/
namespace IrSurvey

/-! ## Marker counts -/

namespace MarkerCounts

variable {m : MarkerCounts}

/-- The recorded counts, in the order of reports. -/
def entries (m : MarkerCounts) : List (MarkerKind × Nat) :=
  MarkerKind.all.filterMap fun kind => (m.recorded kind).map (kind, ·)

theorem recorded_of_mem_entries {e : MarkerKind × Nat} (h : e ∈ m.entries) :
    m.recorded e.1 = some e.2 := by
  obtain ⟨kind, -, he⟩ := List.mem_filterMap.1 h
  obtain ⟨n, hn, rfl⟩ := Option.map_eq_some_iff.1 he
  exact hn

/-- Entries that are made of distinct keys are found by them. -/
theorem find?_entries (f : MarkerKind → Option Nat) (kinds : List MarkerKind) (kind : MarkerKind) :
    (kinds.filterMap fun k => (f k).map (k, ·)).find? (·.1 = kind) =
      if kind ∈ kinds then (f kind).map (kind, ·) else none := by
  induction kinds with
  | nil => rfl
  | cons k kinds ih =>
      by_cases hk : k = kind
      · subst hk
        cases hf : f k with
        | none => simp [hf, ih]
        | some n => simp [hf]
      · cases hf : f k with
        | none => simp [hf, ih, Ne.symm hk]
        | some n => simp [hf, ih, hk, Ne.symm hk]

theorem find?_reverse_entries (m : MarkerCounts) (kind : MarkerKind) :
    (m.entries.reverse.find? (·.1 = kind)).map Prod.snd = m.recorded kind := by
  have hmem : kind ∈ MarkerKind.all.reverse := by
    cases kind <;> decide
  rw [entries, ← List.filterMap_reverse, find?_entries, if_pos hmem]
  cases m.recorded kind <;> rfl

theorem ofKey?_key (kind : MarkerKind) : MarkerKind.ofKey? kind.key = some kind := by
  cases kind <;> decide

theorem toJson_eq_entries (m : MarkerCounts) :
    m.toJson = .object [("counts",
      .object (m.entries.map fun e => (e.1.key, .ofNat e.2)))] := by
  have hmembers : (MarkerKind.all.filterMap fun kind =>
      (m.recorded kind).map fun n => (kind.key, Json.ofNat n)) =
        m.entries.map fun e => (e.1.key, .ofNat e.2) := by
    rw [entries, List.map_filterMap]
    simp only [Option.map_map]
    rfl
  rw [toJson, hmembers]

theorem ofJson?_toJson (h : ∀ kind, ∀ n ∈ m.recorded kind, n < UInt64.size) :
    ofJson? m.toJson = some m := by
  have hfields : m.toJson.fields? 1 ["counts"] =
      some [some (.object (m.entries.map fun e => (e.1.key, .ofNat e.2)))] := by
    rw [toJson_eq_entries]
    exact Json.fields?_zip 1 ["counts"] [_] (by decide) rfl
  rw [ofJson?, hfields]
  dsimp only
  rw [Json.mapM_map_eq_some]
  · show some { recorded := _ } = some m
    simp only [find?_reverse_entries]
  · intro e he
    have hn : e.2 < UInt64.size := h e.1 e.2 (recorded_of_mem_entries he)
    simp only [ofKey?_key, Json.word?_ofNat hn]
    rfl

theorem plain_toJson (m : MarkerCounts) : m.toJson.Plain := by
  rw [toJson_eq_entries]
  refine Json.plain_zip ["counts"] [_] ?_
  rw [List.forall_mem_singleton]
  refine .object fun v hv => ?_
  obtain ⟨e, -, rfl⟩ := List.mem_map.1 hv
  exact Json.plain_ofNat e.2

/-- No text has more marks than characters. -/
theorem get_ofText_le_length (text : String) (kind : MarkerKind) :
    (ofText text).get kind ≤ text.length := by
  rw [get_ofText, ← String.length_toList]
  exact kind.count_signature_le_length text.toList

theorem le_length_of_mem_recorded {text : String} {kind : MarkerKind} {n : Nat}
    (h : n ∈ (ofText text).recorded kind) : n ≤ text.length := by
  have hget : (ofText text).get kind = n := by
    rw [get, Option.mem_def.1 h]
    rfl
  exact hget ▸ get_ofText_le_length text kind

end MarkerCounts

/-! ## Metrics -/

namespace ListingMetrics

variable {m : ListingMetrics}

theorem ofJson?_toJson (h : ∀ n ∈ m.totals, n < UInt64.size) : ofJson? m.toJson = some m := by
  have hfields : m.toJson.fields? keys.length keys = some ((m.totals.map .ofNat).map some) :=
    Json.fields?_zip _ keys (m.totals.map .ofNat) (by decide) rfl
  have htotals : ((m.totals.map Json.ofNat).map some).mapM (fun field => field.bind Json.word?) =
      some m.totals := by
    rw [List.map_map]
    exact Json.mapM_map_eq_some fun n hn => Json.word?_ofNat (h n hn)
  rw [ofJson?, hfields]
  simp only [Option.bind_eq_bind, Option.bind_some, htotals]
  rfl

theorem plain_toJson (m : ListingMetrics) : m.toJson.Plain := by
  refine Json.plain_zip keys _ fun v hv => ?_
  obtain ⟨n, -, rfl⟩ := List.mem_map.1 hv
  exact Json.plain_ofNat n

/-- The totals are no larger than the numbers that they sum up. -/
theorem le_of_mem_totals_of {l : Listing} {m : MarkerCounts} {bound : Nat}
    (hfunctions : l.functions.length ≤ bound) (hinstructions : l.instructionCount ≤ bound)
    (hmarks : ∀ kind, m.get kind ≤ bound) : ∀ n ∈ (of l m).totals, n ≤ bound := by
  have hobfuscated : l.functions.countP Listing.Function.isObfuscated ≤ bound :=
    Nat.le_trans List.countP_le_length hfunctions
  simp only [totals, of, List.forall_mem_cons]
  exact ⟨hfunctions, hobfuscated, hinstructions, hinstructions, hmarks _, hmarks _, hmarks _,
    hmarks _, hmarks _, hmarks _, nofun⟩

end ListingMetrics

/-! ## Analyses -/

namespace Analysis

/-- Every number of an analysis has 64 bits. -/
structure Fits (a : Analysis) : Prop where
  positions : ∀ f ∈ a.listing.functions, ∀ l ∈ f.labels, l.position < UInt64.size
  counts : ∀ kind, ∀ n ∈ a.markers.recorded kind, n < UInt64.size
  totals : ∀ n ∈ a.metrics.totals, n < UInt64.size

theorem ofJson?_toJson {a : Analysis} (h : a.Fits) : ofJson? a.toJson = some a := by
  have hfields : a.toJson.fields? 3 ["listing", "markers", "metrics"] =
      some [some a.listing.toJson, some a.markers.toJson, some a.metrics.toJson] :=
    Json.fields?_zip 3 _ [_, _, _] (by decide) rfl
  rw [ofJson?, hfields]
  simp only [Listing.ofJson?_toJson h.positions, MarkerCounts.ofJson?_toJson h.counts,
    ListingMetrics.ofJson?_toJson h.totals]
  rfl

theorem plain_toJson (a : Analysis) : a.toJson.Plain := by
  refine Json.plain_zip ["listing", "markers", "metrics"] [_, _, _] ?_
  simp only [List.forall_mem_cons]
  exact ⟨a.listing.plain_toJson, a.markers.plain_toJson, a.metrics.plain_toJson, nofun⟩

/-- Reads an analysis from the text of its JSON. -/
def read? (s : String) : Option Analysis :=
  (Json.read? s).bind ofJson?

theorem read?_render {a : Analysis} (h : a.Fits) : read? a.toJson.render = some a := by
  rw [read?, Json.read?_render a.plain_toJson, Option.bind_some, ofJson?_toJson h]

/-- The positions and the marks of a text are bounded by its length, so that only the instructions
of functions that lie in each other could be too many. -/
theorem fits_ofText {text : String} (hlength : text.length < UInt64.size)
    (hcount : (Listing.ofText text).instructionCount < UInt64.size) : (ofText text).Fits where
  positions f hf l hl := Nat.lt_of_le_of_lt (Listing.position_le hf l hl) hlength
  counts _ _ hn := Nat.lt_of_le_of_lt (MarkerCounts.le_length_of_mem_recorded hn) hlength
  totals := by
    intro n hn
    have hmarks := MarkerCounts.get_ofText_le_length text
    have hle : n ≤ max text.length (Listing.ofText text).instructionCount :=
      ListingMetrics.le_of_mem_totals_of
        (Nat.le_trans (Listing.length_functions_le text) (Nat.le_max_left _ _))
        (Nat.le_max_right _ _) (fun kind => Nat.le_trans (hmarks kind) (Nat.le_max_left _ _)) n hn
    exact Nat.lt_of_le_of_lt hle (Nat.max_lt.2 ⟨hlength, hcount⟩)

theorem instructionCount_lt {text : String} (h : text.length < UInt32.size) :
    (Listing.ofText text).instructionCount < UInt64.size :=
  calc (Listing.ofText text).instructionCount
      ≤ text.length * text.length := Listing.instructionCount_le text
    _ < UInt32.size * UInt32.size := Nat.mul_self_lt_mul_self h
    _ = UInt64.size := rfl

/-- An analysis is read back from its JSON, and with it the source listing of a text is the same,
whatever the profile. A text of less than 2 ^ 32 characters never counts too many instructions. -/
theorem read?_render_ofText :
    (∀ a : Analysis, a.Fits → read? a.toJson.render = some a) ∧
    (∀ (text : String) (profile : Profile), text.length < UInt64.size →
      (Listing.ofText text).instructionCount < UInt64.size →
      (read? (ofText text).toJson.render).map (Code.sourceListing profile ·.listing) =
        some (Code.sourceListing profile (ofText text).listing)) ∧
    ∀ text : String, text.length < UInt32.size →
      (Listing.ofText text).instructionCount < UInt64.size := by
  refine ⟨fun a h => read?_render h, ?_, fun text h => instructionCount_lt h⟩
  intro text profile hlength hcount
  rw [read?_render (fits_ofText hlength hcount), Option.map_some]

/-- A parameter without a name, the largest position, and a count of zero that is recorded. -/
def extreme : Analysis where
  listing := {
    functions := [{
      name := "f"
      returnType := "void"
      parameters := [{ type := "i32", name := none }, { type := "ptr \"\t\"", name := some "é" }]
      instructions := ["ret void"]
      labels := [{ label := "0", position := UInt64.size - 1 }] }]
    globals := [{ name := "g", kind := .constant, tail := "\u0001" }]
    strings := [{ name := none, raw := "\\00", decoded := "\u0000" }] }
  markers := { recorded := fun kind => if kind = .fakeLoop then some 0 else none }
  metrics := ⟨UInt64.size - 1, 0, 0, 0, 0, 0, 0, 0, 0, 0⟩

theorem read?_render_extreme :
    let text := "define i32 @f(i32) \x7b\n  ret i32 0\n\x7d\n"
    extreme.Fits ∧ read? extreme.toJson.render = some extreme ∧
      text.length < UInt32.size ∧ (Listing.ofText text).instructionCount < UInt64.size ∧
      (read? (ofText text).toJson.render).map (Code.sourceListing .source ·.listing) =
        some (Code.sourceListing .source (ofText text).listing) := by
  intro text
  have hfits : extreme.Fits := {
    positions := by decide
    counts := by
      intro kind
      cases kind <;> decide
    totals := by decide }
  have hlength : text.length < UInt32.size := by decide
  have hcount := read?_render_ofText.2.2 text hlength
  have hword : text.length < UInt64.size := Nat.lt_trans hlength (by decide)
  exact ⟨hfits, read?_render_ofText.1 extreme hfits, hlength, hcount,
    read?_render_ofText.2.1 text .source hword hcount⟩

end Analysis
end IrSurvey
