import IrSurvey.Proofs.Marker.Phrase
import IrSurvey.Proofs.Marker.Fold

/-!
Counts of marks by the places of their words in a text. Four techniques are known by words
alone; the two that are known by a word and a phrase are found line by line.
-/
namespace IrSurvey
open Text

namespace Signature

/-- The marks of a technique that are counted in a text, from left to right. -/
def found (sig : Signature) (text : List Char) : List Mark :=
  Mark.found sig.marks (if sig.caseless then text.map fold else text)

theorem length_found (sig : Signature) (text : List Char) :
    (sig.found text).length = sig.count text :=
  Mark.length_found _ _

/-- A technique that is known by words alone is found as often as one of them starts somewhere. -/
theorem count_of_words (sig : Signature) (hwords : ∀ m ∈ sig.marks, m.isPhrase = false)
    (hapart : ∀ m ∈ sig.marks, ∀ v ∈ sig.marks.map Mark.opening, Apart m.opening v)
    (hfolded : sig.caseless = true → ∀ v ∈ sig.marks.map Mark.opening, Folded v)
    (text : List Char) :
    sig.count text =
      (if sig.caseless then caselessPlaces (sig.marks.map Mark.opening) text
        else places (sig.marks.map Mark.opening) text).length := by
  rw [count, Mark.count_eq_length_places hwords hapart]
  split
  next hcaseless => rw [caselessPlaces_eq (hfolded hcaseless)]
  next => rfl

end Signature

namespace MarkerKind

theorem exists_closesWith (kind : MarkerKind) :
    ∃ closer : String, closer.toList ≠ [] ∧ Mark.ClosesWith kind.signature.marks closer := by
  cases kind
  case fakeLoop => exact ⟨"loop", by decide, fun _ _ _ h => by simp_all [signature]⟩
  case controlFlowFlattening =>
    exact ⟨"dispatch", by decide, fun _ _ _ h => by simp_all [signature]⟩
  all_goals exact ⟨"loop", by decide, fun _ _ _ h => by simp [signature] at h⟩

theorem countP_isPhrase_found_le_one (kind : MarkerKind) {line : List Char} (h : '\n' ∉ line) :
    (kind.signature.found line).countP Mark.isPhrase ≤ 1 := by
  obtain ⟨closer, hcloser, hclose⟩ := kind.exists_closesWith
  unfold Signature.found
  split
  next => exact Mark.countP_isPhrase_le_one hclose hcloser (newline_not_mem_map_fold h)
  next => exact Mark.countP_isPhrase_le_one hclose hcloser h

theorem count_signature_lines (kind : MarkerKind) (text : List Char) :
    kind.signature.count text = ((lines text).map kind.signature.count).sum := by
  rw [← kind.count_signature_unlines, unlines_lines]

/-- A technique that is known by a word and a phrase is found line by line, in any case. -/
theorem count_of_phrase (kind : MarkerKind) {opener closer inner : String}
    (hopener : opener.toList ≠ []) (hinner : inner.toList ≠ [])
    (hcaseless : kind.signature.caseless = true)
    (hmarks : ∀ m, m ∈ kind.signature.marks ↔
      m = .word inner hinner ∨ m = .phrase opener closer hopener)
    (hseparate : Mark.Separate opener.toList closer.toList inner.toList)
    (hcloser : closer.toList ≠ []) (hfolded : ∀ w ∈ [opener, closer, inner], Folded w.toList)
    (text : List Char) :
    kind.signature.count text =
      ((lines text).map fun line => Mark.phraseCount (caselessPlaces [·] line)
        opener.toList closer.toList inner.toList).sum := by
  rw [kind.count_signature_lines]
  refine congrArg List.sum (List.map_congr_left fun line hline => ?_)
  have hfind : ∀ w ∈ [opener, closer, inner],
      caselessPlaces [w.toList] line = places [w.toList] (line.map fold) := fun w hw =>
    caselessPlaces_eq (by simpa using hfolded w hw) line
  simp only [List.forall_mem_cons] at hfind
  obtain ⟨hopens, hcloses, hinners, -⟩ := hfind
  rw [Signature.count, if_pos hcaseless, Mark.count_eq_phraseCount hseparate hcloser hmarks
    (newline_not_mem_map_fold (not_mem_of_mem_lines hline))]
  simp only [Mark.phraseCount, hopens, hcloses, hinners]

end MarkerKind

namespace MarkerCounts

/-- Where a technique is known by words, its marks are as many as the places where one of them
starts. Where it is known by a word and a phrase, the phrase of a line goes from the first opening
word to the last closing word, and takes up the words between them. No line has two phrases. -/
theorem get_ofText_eq_places :
    (∀ text : String,
      let s := text.toList
      (ofText text).get .stringEncryption = (places ["@__obf_key".toList] s).length ∧
      (ofText text).get .opaquePredicate =
        (caselessPlaces ["opaque".toList, "obfuscated".toList] s).length ∧
      (ofText text).get .bogusCode =
        (places ["0xDEADBEEF".toList, "0xCAFEBABE".toList] s).length ∧
      (ofText text).get .virtualization = (caselessPlaces
        ["@__obf_decrypt".toList, "@__vm_".toList, "bytecode".toList] s).length ∧
      (ofText text).get .fakeLoop = ((lines s).map fun line =>
        Mark.phraseCount (caselessPlaces [·] line)
          "dummy".toList "loop".toList "fake".toList).sum ∧
      (ofText text).get .controlFlowFlattening = ((lines s).map fun line =>
        Mark.phraseCount (caselessPlaces [·] line)
          "switch".toList "dispatch".toList "flatten".toList).sum) ∧
    ∀ (text : String) (kind : MarkerKind),
      (ofText text).get kind =
        ((lines text.toList).map fun line => (kind.signature.found line).length).sum ∧
      ∀ line ∈ lines text.toList, (kind.signature.found line).countP Mark.isPhrase ≤ 1 := by
  refine ⟨fun text => ?_, fun text kind => ⟨?_, fun line hline => ?_⟩⟩
  · intro s
    simp only [get_ofText]
    refine ⟨?_, ?_, ?_, ?_, ?_, ?_⟩
    · exact Signature.count_of_words _ (by decide) (by decide) (by decide) s
    · exact Signature.count_of_words _ (by decide) (by decide) (by decide) s
    · exact Signature.count_of_words _ (by decide) (by decide) (by decide) s
    · exact Signature.count_of_words _ (by decide) (by decide) (by decide) s
    · exact MarkerKind.count_of_phrase .fakeLoop (by decide) (by decide) rfl
        (by simp [MarkerKind.signature])
        ⟨by decide, by decide, by decide, by decide, by decide⟩ (by decide) (by decide) s
    · exact MarkerKind.count_of_phrase .controlFlowFlattening (by decide) (by decide) rfl
        (by simp [MarkerKind.signature, or_comm])
        ⟨by decide, by decide, by decide, by decide, by decide⟩ (by decide) (by decide) s
  · simp only [Signature.length_found]
    rw [get_ofText, kind.count_signature_lines]
  · exact kind.countP_isPhrase_found_le_one (not_mem_of_mem_lines hline)

/-- A word in front of the phrase and one behind it count, and what stands between does not. -/
theorem get_ofText_eq_places_phrase :
    let text := "fake duMMy looP fake dummy loop faKe\n; loop \u017Fwitch, dispatch"
    "; loop \u017Fwitch, dispatch".toList ∈ lines text.toList ∧
      (ofText text).get .fakeLoop = 3 ∧ (ofText text).get .controlFlowFlattening = 1 ∧
      (MarkerKind.controlFlowFlattening.signature.found
        "; loop \u017Fwitch, dispatch".toList).countP Mark.isPhrase ≤ 1 := by
  intro text
  have hline : "; loop \u017Fwitch, dispatch".toList ∈ lines text.toList := by decide +kernel
  obtain ⟨-, -, -, -, hfake, hflat⟩ := get_ofText_eq_places.1 text
  have hphrase := (get_ofText_eq_places.2 text .controlFlowFlattening).2 _ hline
  refine ⟨hline, hfake.trans ?_, hflat.trans ?_, hphrase⟩
  · decide +kernel
  · decide +kernel

end MarkerCounts
end IrSurvey
