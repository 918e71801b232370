import Mathlib.Data.String.Basic
import IrSurvey.Text.Offset
import IrSurvey.Proofs.Text.Bracket
import IrSurvey.Proofs.Text.Bytes

/-!
Where brackets close, by byte offsets. A bracket is one byte that is part of no other character, so
a walk over bytes and a walk over characters stop at the same place, and the byte at which they stop
begins a character, also where the walk did not start with one.
-/
namespace IrSurvey.Text

/-! ## The depth -/

/-- The depth of a walk is counted without a sign. -/
inductive DepthFault
  | belowZero
deriving DecidableEq, Repr

section
variable {α : Type} [DecidableEq α]

/-- The walk from an offset on with `depth` brackets open: the offset at which the depth comes to
zero, if it does. To take one from a depth of zero is a fault. -/
def walkClose (opening closing : α) : Nat → Nat → List α → Except DepthFault (Option Nat)
  | _, _, [] => .ok none
  | depth, offset, a :: s =>
    if a = opening then walkClose opening closing (depth + 1) (offset + 1) s
    else if a = closing then
      match depth with
      | 0 => .error .belowZero
      | depth + 1 =>
        if depth = 0 then .ok (some offset) else walkClose opening closing depth (offset + 1) s
    else walkClose opening closing depth (offset + 1) s

/-- The walk from inside a bracket is without a fault, and stops at the closing index. -/
theorem walkClose_eq (opening closing : α) (depth offset : Nat) (s : List α) :
    walkClose opening closing (depth + 1) offset s =
      .ok ((closeIndex? opening closing depth s).map (offset + ·)) := by
  have hnext : ∀ (k : Nat) (o : Option Nat), o.map (k + 1 + ·) = (o.map (· + 1)).map (k + ·) := by
    intro k o
    rw [Option.map_map]
    congr 1
    funext n
    exact Nat.add_right_comm k 1 n
  induction s generalizing depth offset with
  | nil => rfl
  | cons a s ih =>
      rw [walkClose]
      by_cases ho : a = opening
      · subst ho
        rw [if_pos rfl, ih, hnext, closeIndex?_opening]
      · rw [if_neg ho]
        by_cases hc : a = closing
        · subst hc
          rw [if_pos rfl]
          cases depth with
          | zero =>
              rw [closeIndex?_closing_zero (Ne.symm ho)]
              rfl
          | succ depth =>
              rw [closeIndex?_closing_succ (Ne.symm ho), ← hnext]
              exact ih depth (offset + 1)
        · rw [if_neg hc, ih, hnext, closeIndex?_other ho hc]

end

namespace Brackets

variable (b : Brackets) {bytes : List UInt8} {text : String} {start p : Nat}

/-- Behind `start`, the byte at `p` is the first that closes one bracket more than are opened. -/
structure ClosesAt (bytes : List UInt8) (start p : Nat) : Prop where
  start_le : start ≤ p
  closing : bytes[p]? = some b.closingByte
  count_eq : (bytes.extract start (p + 1)).count b.closingByte =
    (bytes.extract start (p + 1)).count b.openingByte + 1
  count_le : ∀ q, q <+: bytes.drop start → q.length < p + 1 - start →
    q.count b.closingByte ≤ q.count b.openingByte

theorem openingByte_ne_closingByte : b.openingByte ≠ b.closingByte := by
  intro h
  have hopening : b.openingByte.toNat = b.opening.toNat :=
    UInt8.toNat_ofNat_of_lt' (Nat.lt_trans b.opening_ascii (by decide))
  have hclosing : b.closingByte.toNat = b.closing.toNat :=
    UInt8.toNat_ofNat_of_lt' (Nat.lt_trans b.closing_ascii (by decide))
  apply b.opening_ne_closing
  rw [← Char.ofNat_toNat b.opening, ← hopening, h, hclosing, Char.ofNat_toNat]

theorem closeFrom?_eq_some (h : start ≤ text.utf8ByteSize) :
    b.closeFrom? text start =
      some (closeOffset? b.openingByte b.closingByte start (text.toUTF8.toList.drop start)) := by
  rw [closeFrom?, bytesFrom?, if_pos h, Option.map_some]

theorem closeOffset?_eq_some_iff :
    closeOffset? b.openingByte b.closingByte start (bytes.drop start) = some p ↔
      b.ClosesAt bytes start p := by
  have hindex : ∀ n, closeIndex? b.openingByte b.closingByte 0 (bytes.drop start) = some n ↔
      b.ClosesAt bytes start (start + n) := by
    intro n
    have hslice : bytes.extract start (start + n + 1) = (bytes.drop start).take (n + 1) := by
      rw [List.extract_eq_take_drop, Nat.add_assoc, Nat.add_sub_cancel_left]
    have hlen : start + n + 1 - start = n + 1 := by omega
    rw [closeIndex?_zero_eq_some_iff b.openingByte_ne_closingByte, List.getElem?_drop]
    constructor
    · rintro ⟨hclosing, hcount, hprefix⟩
      exact ⟨Nat.le_add_right start n, hclosing, by rw [hslice]; exact hcount,
        by rw [hlen]; exact hprefix⟩
    · intro h
      have hcount := h.count_eq
      have hprefix := h.count_le
      rw [hslice] at hcount
      rw [hlen] at hprefix
      exact ⟨h.closing, hcount, hprefix⟩
  rw [closeOffset?, Option.map_eq_some_iff]
  constructor
  · rintro ⟨n, hn, rfl⟩
    exact (hindex n).1 hn
  · intro h
    obtain ⟨n, rfl⟩ := Nat.exists_eq_add_of_le h.start_le
    exact ⟨n, (hindex n).2 h, rfl⟩

theorem closeOffset?_eq_none_iff :
    closeOffset? b.openingByte b.closingByte start (bytes.drop start) = none ↔
      ∀ q, q <+: bytes.drop start → q.count b.closingByte ≤ q.count b.openingByte := by
  rw [closeOffset?, Option.map_eq_none_iff, closeIndex?_eq_none_iff b.openingByte_ne_closingByte]
  simp only [StaysOpen, Nat.zero_add]

/-! ## Characters -/

/-- The closing byte begins a character wherever it stands. -/
theorem isValid_of_closing (h : text.toUTF8.toList[p]? = some b.closingByte) :
    (String.Pos.Raw.mk p).IsValid text := by
  obtain ⟨hp, hget⟩ := List.getElem?_eq_some_iff.1 h
  have hsplit : encode text.toList =
      text.toUTF8.toList.take p ++ b.closingByte :: text.toUTF8.toList.drop (p + 1) := by
    rw [← hget, ← List.drop_eq_getElem_cons hp, List.take_append_drop, toList_toUTF8]
  obtain ⟨t, r, htext, ht, -⟩ := encode_eq_append_cons b.closing_ascii hsplit
  have hlen : (String.ofList t).utf8ByteSize = p := by
    rw [← length_encode, ht, List.length_take_of_le (Nat.le_of_lt hp)]
  refine String.Pos.Raw.isValid_iff_exists_append.2
    ⟨String.ofList t, String.ofList (b.closing :: r), ?_, ?_⟩
  · rw [← String.ofList_append, ← htext, String.ofList_toList]
  · exact String.Pos.Raw.ext hlen.symm

/-- The walk over the bytes of characters stops where the walk over the characters does. -/
theorem closeIndex?_encode (depth : Nat) (s : List Char) :
    closeIndex? b.openingByte b.closingByte depth (encode s) =
      (closeIndex? b.opening b.closing depth s).map fun n => (encode (s.take n)).length := by
  have hne := b.openingByte_ne_closingByte
  induction s generalizing depth with
  | nil => rfl
  | cons c s ih =>
      have hnext : ∀ d, (closeIndex? b.openingByte b.closingByte d (encode s)).map
            (· + (String.utf8EncodeChar c).length) =
          ((closeIndex? b.opening b.closing d s).map (· + 1)).map
            fun n => (encode ((c :: s).take n)).length := by
        intro d
        rw [ih, Option.map_map, Option.map_map]
        congr 1
        funext n
        show (encode (s.take n)).length + _ = (encode (c :: s.take n)).length
        rw [encode_cons, List.length_append, Nat.add_comm]
      rw [encode_cons]
      by_cases ho : c = b.opening
      · subst ho
        have hbyte : String.utf8EncodeChar b.opening = [b.openingByte] :=
          utf8EncodeChar_ascii b.opening_ascii
        rw [hbyte] at hnext ⊢
        rw [List.singleton_append, closeIndex?_opening, closeIndex?_opening, ← hnext]
        rfl
      · by_cases hc : c = b.closing
        · subst hc
          have hbyte : String.utf8EncodeChar b.closing = [b.closingByte] :=
            utf8EncodeChar_ascii b.closing_ascii
          rw [hbyte] at hnext ⊢
          cases depth with
          | zero =>
              rw [List.singleton_append, closeIndex?_closing_zero hne,
                closeIndex?_closing_zero b.opening_ne_closing]
              rfl
          | succ depth =>
              rw [List.singleton_append, closeIndex?_closing_succ hne,
                closeIndex?_closing_succ b.opening_ne_closing, ← hnext]
              rfl
        · -- no byte of another character is a bracket
          have hopening : b.openingByte ∉ String.utf8EncodeChar c := fun hmem =>
            ho (eq_of_mem_utf8EncodeChar b.opening_ascii hmem)
          have hclosing : b.closingByte ∉ String.utf8EncodeChar c := fun hmem =>
            hc (eq_of_mem_utf8EncodeChar b.closing_ascii hmem)
          rw [closeIndex?_append_of_not_mem hopening hclosing, closeIndex?_other ho hc, hnext]

/-- The text in front of the bracket that closes, found over its characters, is the text up to the
offset found over its bytes. -/
theorem map_splitClose?_fst (rest : String) :
    (splitClose? b.opening b.closing rest.toList).map (fun q => String.ofList q.1) =
      (closeOffset? b.openingByte b.closingByte 0 rest.toUTF8.toList).map
        fun p => String.Pos.Raw.extract rest 0 ⟨p⟩ := by
  have hcut : ∀ n, String.ofList (rest.toList.take n) =
      String.Pos.Raw.extract rest 0 ⟨0 + (encode (rest.toList.take n)).length⟩ := by
    intro n
    have hextract := String.extract_of_valid [] (rest.toList.take n) (rest.toList.drop n)
    rw [List.nil_append, List.take_append_drop, String.ofList_toList,
      ← String.utf8ByteSize_ofList (rest.toList.take n), ← length_encode] at hextract
    exact hextract.symm
  rw [splitClose?, closeOffset?, toList_toUTF8, b.closeIndex?_encode, Option.map_map,
    Option.map_map, Option.map_map]
  congr 1
  funext n
  exact hcut n

end Brackets

open Brackets

/-- From every offset in a text, the byte at which a bracket closes is found exactly where it is,
without a depth below zero, and begins a character. From the front of a text, what is enclosed over
the characters is what stands in front of that byte. -/
theorem closeFrom?_exact :
    (∀ (b : Brackets) (text : String) (start : Nat), start ≤ text.utf8ByteSize →
      let bytes := text.toUTF8.toList
      ∃ found, b.closeFrom? text start = some found ∧
        walkClose b.openingByte b.closingByte 1 start (bytes.drop start) = .ok found ∧
        (∀ p, found = some p ↔ b.ClosesAt bytes start p) ∧
        (found = none ↔
          ∀ q, q <+: bytes.drop start → q.count b.closingByte ≤ q.count b.openingByte) ∧
        ∀ p ∈ found, (String.Pos.Raw.mk p).IsValid text) ∧
    ∀ rest : String, ∃ found, parentheses.closeFrom? rest 0 = some found ∧
      (splitClose? '(' ')' rest.toList).map (fun q => String.ofList q.1) =
        found.map fun p => String.Pos.Raw.extract rest 0 ⟨p⟩ := by
  refine ⟨?_, ?_⟩
  · intro b text start hstart bytes
    refine ⟨_, b.closeFrom?_eq_some hstart, walkClose_eq _ _ 0 start _,
      fun p => b.closeOffset?_eq_some_iff, b.closeOffset?_eq_none_iff, ?_⟩
    intro p hp
    exact b.isValid_of_closing (b.closeOffset?_eq_some_iff.1 hp).closing
  · intro rest
    exact ⟨_, parentheses.closeFrom?_eq_some (Nat.zero_le _), parentheses.map_splitClose?_fst rest⟩

/-- From inside a character of two bytes. -/
theorem closeFrom?_exact_inside :
    let text := "é\x7bx\x7d\x7dü\x7d"
    1 ≤ text.utf8ByteSize ∧ ¬ (String.Pos.Raw.mk 1).IsValid text ∧
      braces.closeFrom? text 1 = some (some 5) ∧ (String.Pos.Raw.mk 5).IsValid text := by
  intro text
  have hstart : 1 ≤ text.utf8ByteSize := by decide
  have hfound : braces.closeFrom? text 1 = some (some 5) := by decide +kernel
  obtain ⟨found, hclose, -, -, -, hvalid⟩ := closeFrom?_exact.1 braces text 1 hstart
  obtain rfl : some 5 = found := Option.some.inj (hfound.symm.trans hclose)
  exact ⟨hstart, by decide +kernel, hfound, hvalid 5 rfl⟩

end IrSurvey.Text
