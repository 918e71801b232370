import IrSurvey.Listing.Payload
import IrSurvey.Proofs.Text.Bytes
import IrSurvey.Proofs.Text.Digit

/-!
Payloads and their spellings. A payload is made of items, each with its bytes; it is read as the
text that has all the bytes, and stands for itself if it is not made of items or no text has them.
-/
namespace IrSurvey.Listing.Payload
open Text

/-- A piece of a payload. -/
inductive Item
  | char (c : Char) (plain : c ≠ '\\')
  | backslash
  | byte (high low : HexDigit)
deriving DecidableEq, Repr

namespace Item

def spell : Item → List Char
  | .char c _ => [c]
  | .backslash => ['\\', '\\']
  | .byte high low => ['\\', high.spell, low.spell]

def bytes : Item → List UInt8
  | .char c _ => String.utf8EncodeChar c
  | .backslash => [0x5C]
  | .byte high low => [UInt8.ofNat (16 * high.value + low.value)]

end Item

/-- The payload that items spell. -/
def spelling (items : List Item) : String :=
  String.ofList (items.flatMap Item.spell)

/-- The text has the bytes of the items. -/
def StandsFor (items : List Item) (s : String) : Prop :=
  s.toUTF8 = ⟨(items.flatMap Item.bytes).toArray⟩

/-! ## Bytes and digits -/

theorem toNat_spell_lt (d : HexDigit) : d.spell.toNat < 128 := by
  obtain ⟨value, capital⟩ := d
  revert value capital
  decide

/-- The byte of a digit. -/
def digitByte (d : HexDigit) : UInt8 :=
  UInt8.ofNat d.spell.toNat

theorem encode_spell_cons (d : HexDigit) (s : List Char) :
    encode (d.spell :: s) = digitByte d :: encode s := by
  rw [encode_cons, utf8EncodeChar_ascii (toNat_spell_lt d)]
  rfl

theorem digitByte_ne_backslash (d : HexDigit) : digitByte d ≠ 0x5C := by
  obtain ⟨value, capital⟩ := d
  revert value capital
  decide

theorem hexByte?_digitByte (d : HexDigit) : hexByte? (digitByte d) = some d.value.val := by
  have hchar : Char.ofUInt8 (digitByte d) = d.spell := by
    obtain ⟨value, capital⟩ := d
    revert value capital
    decide
  rw [hexByte?, hchar, hexValue?_spell]

theorem exists_digitByte {b : UInt8} {n : Nat} (h : hexByte? b = some n) :
    ∃ d, digitByte d = b := by
  obtain ⟨d, hd, -⟩ := hexValue?_eq_some_iff.1 h
  refine ⟨d, ?_⟩
  rw [digitByte, hd]
  exact UInt8.ofNat_toNat

/-! ## Items are read one by one -/

theorem unescape?_cons_of_ne {b : UInt8} (hb : b ≠ 0x5C) (r : List UInt8) :
    unescape? (b :: r) = (unescape? r).map (b :: ·) := by
  rw [unescape?]
  · exact fun _ he => absurd he hb
  · exact fun _ _ _ he => absurd he hb
  · exact fun he => absurd he hb

theorem unescape?_append_of_not_mem {u : List UInt8} (hu : 0x5C ∉ u) (r : List UInt8) :
    unescape? (u ++ r) = (unescape? r).map (u ++ ·) := by
  induction u with
  | nil => simp
  | cons b u ih =>
      have hb : b ≠ 0x5C := fun he => hu (he ▸ List.mem_cons_self)
      have hu' : 0x5C ∉ u := fun hmem => hu (List.mem_cons_of_mem b hmem)
      rw [List.cons_append, unescape?_cons_of_ne hb, ih hu', Option.map_map]
      rfl

theorem unescape?_byte (high low : HexDigit) (r : List UInt8) :
    unescape? (0x5C :: digitByte high :: digitByte low :: r) =
      (unescape? r).map (UInt8.ofNat (16 * high.value + low.value) :: ·) := by
  rw [unescape?]
  · rw [hexByte?_digitByte, hexByte?_digitByte]
  · exact fun h => absurd h (digitByte_ne_backslash high)

/-- Behind a backslash that starts an escape stand a second one or two digits. -/
theorem exists_digits_of_unescape? {b : UInt8} {r : List UInt8} (hb : b ≠ 0x5C)
    (h : (unescape? (0x5C :: b :: r)).isSome) :
    ∃ high low t, b = digitByte high ∧ r = digitByte low :: t := by
  cases r with
  | nil =>
      rw [unescape?] at h
      · cases h
      · exact fun _ he => absurd (List.cons.inj he).1 hb
      · exact nofun
  | cons l t =>
      rw [unescape?] at h
      · split at h
        next hhigh hlow =>
            obtain ⟨high, rfl⟩ := exists_digitByte hhigh
            obtain ⟨low, rfl⟩ := exists_digitByte hlow
            exact ⟨high, low, t, rfl, rfl⟩
        next => cases h
      · exact fun he => absurd he hb

theorem unescape?_spell_append (item : Item) (s : List Char) :
    unescape? (encode (item.spell ++ s)) = (unescape? (encode s)).map (item.bytes ++ ·) := by
  cases item with
  | char c plain =>
      have hbytes : 0x5C ∉ String.utf8EncodeChar c := by
        intro hmem
        exact plain (eq_of_mem_utf8EncodeChar (show '\\'.toNat < 128 by decide) hmem)
      rw [Item.spell, List.singleton_append, encode_cons]
      exact unescape?_append_of_not_mem hbytes (encode s)
  | backslash => rfl
  | byte high low =>
      have hspell : encode ((Item.byte high low).spell ++ s) =
          0x5C :: digitByte high :: digitByte low :: encode s := by
        rw [← encode_spell_cons, ← encode_spell_cons]
        rfl
      rw [hspell]
      exact unescape?_byte high low (encode s)

theorem unescape?_flatMap_spell (items : List Item) :
    unescape? (encode (items.flatMap Item.spell)) = some (items.flatMap Item.bytes) := by
  induction items with
  | nil => rfl
  | cons item items ih =>
      rw [List.flatMap_cons, List.flatMap_cons, unescape?_spell_append, ih]
      rfl

/-- Characters whose escapes can be undone start with an item. -/
theorem exists_item_of_unescape? {s : List Char} (hs : s ≠ [])
    (h : (unescape? (encode s)).isSome) : ∃ (item : Item) (t : List Char), s = item.spell ++ t := by
  obtain ⟨c, s, rfl⟩ := List.exists_cons_of_ne_nil hs
  by_cases hc : c = '\\'
  · subst hc
    have hencode : encode ('\\' :: s) = 0x5C :: encode s := rfl
    rw [hencode] at h
    cases hrest : encode s with
    | nil =>
        rw [hrest] at h
        cases h
    | cons b r =>
        rw [hrest] at h
        by_cases hb : b = 0x5C
        · subst hb
          have hsecond : encode s = UInt8.ofNat '\\'.toNat :: r := hrest
          obtain ⟨t, rfl, -⟩ := encode_eq_cons (by decide) hsecond
          exact ⟨.backslash, t, rfl⟩
        · obtain ⟨high, low, u, rfl, rfl⟩ := exists_digits_of_unescape? hb h
          obtain ⟨t, rfl, ht⟩ := encode_eq_cons (toNat_spell_lt high) hrest
          obtain ⟨t, rfl, -⟩ := encode_eq_cons (toNat_spell_lt low) ht
          exact ⟨.byte high low, t, rfl⟩
  · exact ⟨.char c hc, s, rfl⟩

theorem length_lt_of_spell_append (item : Item) (t : List Char) :
    t.length < (item.spell ++ t).length := by
  have hpos : 0 < item.spell.length := by
    cases item <;> exact Nat.succ_pos _
  rw [List.length_append]
  exact Nat.lt_add_of_pos_left hpos

/-- Characters whose escapes can be undone are made of items. -/
theorem exists_items_of_unescape? {s : List Char} (h : (unescape? (encode s)).isSome) :
    ∃ items : List Item, s = items.flatMap Item.spell := by
  induction hn : s.length using Nat.strongRecOn generalizing s with
  | ind n ih =>
      by_cases hs : s = []
      · exact ⟨[], hs⟩
      · obtain ⟨item, t, rfl⟩ := exists_item_of_unescape? hs h
        rw [unescape?_spell_append, Option.isSome_map] at h
        obtain ⟨items, rfl⟩ := ih t.length (hn ▸ length_lt_of_spell_append item t) h rfl
        exact ⟨item :: items, rfl⟩

/-- A payload that items spell is read as the text that has their bytes. -/
theorem decode_spelling {items : List Item} {s : String} (h : StandsFor items s) :
    decode (spelling items) = s := by
  have hread : String.fromUTF8? ⟨(items.flatMap Item.bytes).toArray⟩ = some s :=
    fromUTF8?_eq_some_iff.2 h
  simp only [decode, spelling, toList_toUTF8, String.toList_ofList, unescape?_flatMap_spell, hread,
    Option.getD_some]

/-- A payload that is no spelling of a text is kept. -/
theorem decode_eq_self {raw : String}
    (h : ¬ ∃ items s, raw = spelling items ∧ StandsFor items s) : decode raw = raw := by
  unfold decode
  split
  next bs hbs =>
      rw [toList_toUTF8] at hbs
      obtain ⟨items, hitems⟩ := exists_items_of_unescape? (Option.isSome_of_eq_some hbs)
      rw [hitems, unescape?_flatMap_spell] at hbs
      cases hbs
      have hraw : raw = spelling items := by rw [spelling, ← hitems, String.ofList_toList]
      cases hread : String.fromUTF8? ⟨(items.flatMap Item.bytes).toArray⟩ with
      | none => rfl
      | some s => exact absurd ⟨items, s, hraw, fromUTF8?_eq_some_iff.1 hread⟩ h
  next => rfl

/-- A payload is read as the text whose bytes its items make up, and as itself if there is no such
text. So every spelling of a text is read as the text. -/
theorem decode_eq_iff_spelling :
    (∀ raw s : String, decode raw = s ↔
      (∃ items, raw = spelling items ∧ StandsFor items s) ∨
        (s = raw ∧ ¬ ∃ items t, raw = spelling items ∧ StandsFor items t)) ∧
    ∀ (items : List Item) (s : String), StandsFor items s → decode (spelling items) = s := by
  refine ⟨fun raw s => ⟨?_, ?_⟩, fun items s => decode_spelling⟩
  · rintro rfl
    by_cases h : ∃ items t, raw = spelling items ∧ StandsFor items t
    · obtain ⟨items, t, rfl, ht⟩ := h
      rw [decode_spelling ht]
      exact .inl ⟨items, rfl, ht⟩
    · exact .inr ⟨decode_eq_self h, h⟩
  · rintro (⟨items, rfl, hs⟩ | ⟨rfl, h⟩)
    · exact decode_spelling hs
    · exact decode_eq_self h

/-- One character in two escapes, their digits in either case. -/
theorem decode_eq_iff_spelling_escaped :
    StandsFor [.char 'n' (by decide), .byte ⟨12, true⟩ ⟨3, false⟩, .byte ⟨10, false⟩ ⟨9, false⟩,
        .backslash, .char 'é' (by decide)] "né\\é" ∧
      decode (spelling [.char 'n' (by decide), .byte ⟨12, true⟩ ⟨3, false⟩,
        .byte ⟨10, false⟩ ⟨9, false⟩, .backslash, .char 'é' (by decide)]) = "né\\é" := by
  have h : StandsFor [.char 'n' (by decide), .byte ⟨12, true⟩ ⟨3, false⟩,
      .byte ⟨10, false⟩ ⟨9, false⟩, .backslash, .char 'é' (by decide)] "né\\é" := by
    rfl
  exact ⟨h, decode_eq_iff_spelling.2 _ _ h⟩

end IrSurvey.Listing.Payload
