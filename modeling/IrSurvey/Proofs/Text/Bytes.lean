/-!
Texts and their UTF-8 bytes.
-/
namespace IrSurvey.Text

/-- Bytes are read as the one text that has them. -/
theorem fromUTF8?_eq_some_iff {b : ByteArray} {s : String} :
    String.fromUTF8? b = some s ↔ s.toUTF8 = b := by
  unfold String.fromUTF8?
  constructor
  · intro h
    split at h
    next =>
        cases h
        rfl
    next => cases h
  · rintro rfl
    exact dif_pos s.isValidUTF8

theorem toList_loop (b : ByteArray) (i : Nat) (r : List UInt8) :
    ByteArray.toList.loop b i r = r.reverse ++ b.data.toList.drop i := by
  fun_induction ByteArray.toList.loop b i r with
  | case1 i r hi ih =>
      have hi' : i < b.data.toList.length := hi
      have hget : b.get! i = b.data.toList[i] := by
        show b.data[i]! = b.data.toList[i]
        rw [getElem!_pos b.data i hi, Array.getElem_toList]
      rw [ih, List.reverse_cons, List.append_assoc, List.drop_eq_getElem_cons hi', hget]
      rfl
  | case2 i r hi =>
      have hi' : b.data.toList.length ≤ i := Nat.le_of_not_lt hi
      rw [List.drop_eq_nil_of_le hi', List.append_nil]

theorem toList_mk (l : List UInt8) : (ByteArray.mk l.toArray).toList = l :=
  toList_loop _ 0 []

theorem mk_toList (b : ByteArray) : ByteArray.mk b.toList.toArray = b := by
  have hdata : b.toList = b.data.toList := toList_loop b 0 []
  rw [hdata, Array.toArray_toList]

/-! ## The bytes of characters -/

/-- The UTF-8 bytes of characters. -/
def encode (s : List Char) : List UInt8 :=
  s.flatMap String.utf8EncodeChar

theorem encode_cons (c : Char) (s : List Char) :
    encode (c :: s) = String.utf8EncodeChar c ++ encode s :=
  List.flatMap_cons

theorem toList_toUTF8 (s : String) : s.toUTF8.toList = encode s.toList := by
  have hbytes : s.toUTF8 = ByteArray.mk (encode s.toList).toArray := by
    rw [← String.ofList_toList (s := s), String.toList_ofList]
    exact ByteArray.ext List.data_toByteArray
  rw [hbytes, toList_mk]

theorem utf8EncodeChar_ascii {c : Char} (h : c.toNat < 128) :
    String.utf8EncodeChar c = [UInt8.ofNat c.toNat] :=
  if_pos (Nat.le_of_lt_succ h)

/-- Beyond ASCII every byte has its high bit. -/
theorem le_of_mem_utf8EncodeChar {c : Char} (h : 128 ≤ c.toNat) :
    ∀ b ∈ String.utf8EncodeChar c, 128 ≤ b.toNat := by
  have hc : 128 ≤ c.val.toNat := h
  simp only [String.utf8EncodeChar]
  split
  next => omega
  next =>
      split
      next =>
          simp only [List.forall_mem_cons, UInt8.toNat_ofNat']
          exact ⟨by omega, by omega, nofun⟩
      next =>
          split
          next =>
              simp only [List.forall_mem_cons, UInt8.toNat_ofNat']
              exact ⟨by omega, by omega, by omega, nofun⟩
          next =>
              simp only [List.forall_mem_cons, UInt8.toNat_ofNat']
              exact ⟨by omega, by omega, by omega, by omega, nofun⟩

/-- A byte in ASCII is part of no character but its own. -/
theorem eq_of_mem_utf8EncodeChar {a c : Char} (ha : a.toNat < 128)
    (h : UInt8.ofNat a.toNat ∈ String.utf8EncodeChar c) : c = a := by
  have hbyte : (UInt8.ofNat a.toNat).toNat = a.toNat :=
    UInt8.toNat_ofNat_of_lt' (Nat.lt_trans ha (by decide))
  by_cases hc : c.toNat < 128
  · rw [utf8EncodeChar_ascii hc, List.mem_singleton] at h
    have hnat : a.toNat = c.toNat := by
      rw [← hbyte, h]
      exact UInt8.toNat_ofNat_of_lt' (Nat.lt_trans hc (by decide))
    rw [← Char.ofNat_toNat c, ← hnat, Char.ofNat_toNat]
  · have hle := le_of_mem_utf8EncodeChar (Nat.le_of_not_lt hc) _ h
    omega

/-- Bytes that start with one in ASCII are those of characters that start with its own. -/
theorem encode_eq_cons {a : Char} {s : List Char} {r : List UInt8} (ha : a.toNat < 128)
    (h : encode s = UInt8.ofNat a.toNat :: r) : ∃ t, s = a :: t ∧ encode t = r := by
  cases s with
  | nil => cases h
  | cons c t =>
      have hmem : UInt8.ofNat a.toNat ∈ String.utf8EncodeChar c := by
        rw [encode_cons] at h
        cases hbytes : String.utf8EncodeChar c with
        | nil => exact absurd hbytes String.utf8EncodeChar_ne_nil
        | cons b bs =>
            rw [hbytes, List.cons_append] at h
            exact (List.cons.inj h).1 ▸ List.mem_cons_self
      obtain rfl := eq_of_mem_utf8EncodeChar ha hmem
      rw [encode_cons, utf8EncodeChar_ascii ha] at h
      exact ⟨t, rfl, (List.cons.inj h).2⟩

/-- A byte in ASCII cuts bytes where its own character cuts the text. -/
theorem encode_eq_append_cons {a : Char} {s : List Char} {u v : List UInt8} (ha : a.toNat < 128)
    (h : encode s = u ++ UInt8.ofNat a.toNat :: v) :
    ∃ t r, s = t ++ a :: r ∧ encode t = u ∧ encode r = v := by
  induction s generalizing u with
  | nil => cases u <;> cases h
  | cons c s ih =>
      rw [encode_cons] at h
      rcases List.append_eq_append_iff.1 h with ⟨w, rfl, hs⟩ | ⟨w, hc, hv⟩
      · obtain ⟨t, r, rfl, rfl, hr⟩ := ih hs
        exact ⟨c :: t, r, rfl, encode_cons c t, hr⟩
      · cases w with
        | nil =>
            obtain ⟨r, rfl, hr⟩ := encode_eq_cons ha hv.symm
            rw [List.append_nil] at hc
            exact ⟨[c], r, rfl, (encode_cons c []).trans (by rw [hc]; exact List.append_nil u), hr⟩
        | cons b w =>
            -- the byte is one of the first character, which is then its own
            obtain ⟨rfl, rfl⟩ := List.cons.inj hv
            have hmem : UInt8.ofNat a.toNat ∈ String.utf8EncodeChar c :=
              hc ▸ List.mem_append_right u List.mem_cons_self
            obtain rfl := eq_of_mem_utf8EncodeChar ha hmem
            rw [utf8EncodeChar_ascii ha] at hc
            obtain ⟨rfl, hw⟩ : u = [] ∧ w = [] := by
              cases u with
              | nil => exact ⟨rfl, (List.cons.inj hc).2.symm⟩
              | cons b u => cases u <;> cases (List.cons.inj hc).2
            exact ⟨[], s, rfl, rfl, by rw [hw]; rfl⟩

theorem length_toList_toUTF8 (s : String) : s.toUTF8.toList.length = s.utf8ByteSize := by
  have hdata : s.toUTF8.toList = s.toUTF8.data.toList := toList_loop s.toUTF8 0 []
  rw [hdata, Array.length_toList]
  rfl

theorem length_encode (s : List Char) : (encode s).length = (String.ofList s).utf8ByteSize := by
  rw [← length_toList_toUTF8, toList_toUTF8, String.toList_ofList]

end IrSurvey.Text
