import IrSurvey.Proofs.Text.Blank
import IrSurvey.Proofs.Text.Bracket
import IrSurvey.Proofs.Text.Symbol
import IrSurvey.Proofs.Text.TopLevel

/-!
Pieces. What trimming, words, brackets and top-level commas cut out of a text keeps its characters
in their order, so it brings in none that the text has not.
-/
namespace IrSurvey.Text
open scoped List

variable {s p r : List Char}

theorem trimStart_sublist (s : List Char) : trimStart s <+ s :=
  List.dropWhile_sublist _

theorem trimEnd_sublist (s : List Char) : trimEnd s <+ s := by
  obtain ⟨g, -, hs⟩ := exists_blank_trimEnd s
  conv_rhs => rw [hs]
  exact List.sublist_append_left _ g

theorem trim_sublist (s : List Char) : trim s <+ s :=
  (trimEnd_sublist _).trans (trimStart_sublist s)

theorem firstWord_snd_sublist (s : List Char) : (firstWord s).2 <+ s :=
  (trimStart_sublist _).trans ((List.dropWhile_sublist _).trans (trimStart_sublist s))

theorem lastWord_sublist (s : List Char) : lastWord s <+ s := by
  by_cases hs : AllBlank s
  · have hwords : words s = [] := by simpa using words_append_blank [] hs
    rw [lastWord, hwords]
    exact List.nil_sublist s
  · obtain ⟨a, w, b, rfl, -, -, -, -, hwords⟩ := exists_last_word hs
    rw [lastWord, hwords, List.getLast?_concat]
    exact (List.sublist_append_right a w).trans (List.sublist_append_left _ b)

theorem splitClose?_fst_sublist {opening closing : Char} {q : List Char × List Char}
    (h : splitClose? opening closing s = some q) : q.1 <+ s := by
  obtain ⟨n, -, rfl⟩ := Option.map_eq_some_iff.1 h
  exact List.take_sublist n s

theorem applied?_snd_sublist {q : List Char × List Char} (h : applied? s = some q) : q.2 <+ s := by
  obtain ⟨g, -, -, rfl⟩ := applied?_sound (show _ = some (q.1, q.2) from h)
  exact (List.sublist_cons_self _ _).trans (List.sublist_append_right _ _)

theorem sublist_of_mem_topLevelPieces {depth : Int} (h : p ∈ topLevelPieces depth s) : p <+ s := by
  rw [← intercalate_topLevelPieces depth s]
  exact sublist_intercalate h

theorem sublist_of_mem_splitTopLevel (h : p ∈ splitTopLevel s) : p <+ s := by
  obtain ⟨q, hq, rfl⟩ := List.mem_map.1 ((splitTopLevel_prefix_map_trim s).mem h)
  exact (trim_sublist q).trans (sublist_of_mem_topLevelPieces hq)

end IrSurvey.Text
