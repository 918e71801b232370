import IrSurvey.Files.Directory
import IrSurvey.Proofs.Text.Bytes

/-!
Reading and writing in a directory. A file that is written is read back under its path, and no other
file changes.
-/
namespace IrSurvey

/-- A text is read from exactly its UTF-8 bytes. -/
theorem ReadFile.text_eq_ok_iff {read : ReadFile} {path text : String} :
    read.text path = .ok text ↔ read path = .ok text.toUTF8.toList := by
  unfold ReadFile.text
  cases hread : read path with
  | error cause => exact ⟨nofun, nofun⟩
  | ok bytes =>
      constructor
      · intro h
        cases htext : String.fromUTF8? (ByteArray.mk bytes.toArray) with
        | none =>
            simp only [htext] at h
            cases h
        | some s =>
            simp only [htext] at h
            cases h
            rw [Text.fromUTF8?_eq_some_iff.1 htext, Text.toList_mk]
      · intro h
        obtain rfl : bytes = text.toUTF8.toList := Except.ok.inj h
        have htext : String.fromUTF8? (ByteArray.mk text.toUTF8.toList.toArray) = some text :=
          Text.fromUTF8?_eq_some_iff.2 (Text.mk_toList text.toUTF8).symm
        simp only [htext]

namespace Directory

variable {d d' : Directory} {path text name other : String} {bytes : List UInt8}

/-- A path leads to a file with a text. -/
def Holds (d : Directory) (path text : String) : Prop :=
  d.read path = .ok text.toUTF8.toList

/-- A text was written under a path, and nothing else. -/
structure Wrote (d d' : Directory) (path text : String) : Prop where
  holds : d'.Holds path text
  others : ∃ name, d.place path = .ok (.name name) ∧ d'.place path = .ok (.name name) ∧
    ∀ other, other ≠ name → d'.files.lookup other = d.files.lookup other

theorem lookup_insert_self : (d.insert name bytes).files.lookup name = some bytes :=
  List.lookup_cons_self

theorem lookup_filter_of_ne (h : other ≠ name) (files : List (String × List UInt8)) :
    (files.filter (·.1 ≠ name)).lookup other = files.lookup other := by
  induction files with
  | nil => rfl
  | cons file files ih =>
      by_cases hname : file.1 = name
      · have hother : (other == file.1) = false := by simpa [hname] using h
        rw [List.filter_cons_of_neg (by simpa using hname), ih, List.lookup_cons, hother]
      · rw [List.filter_cons_of_pos (by simpa using hname), List.lookup_cons, List.lookup_cons, ih]

theorem lookup_insert_of_ne (h : other ≠ name) :
    (d.insert name bytes).files.lookup other = d.files.lookup other := by
  have hother : (other == name) = false := by simpa using h
  rw [insert, List.lookup_cons, hother]
  exact lookup_filter_of_ne h d.files

/-- What a path leads to does not depend on the files; only the reason why it leads nowhere does. -/
theorem walk_eq_ok_of {parts : List (List Char)} {p : Place} (h : d.walk parts = .ok p) :
    d'.walk parts = .ok p := by
  fun_induction walk d parts with
  | case1 => exact h
  | case2 parts ih =>
      rw [walk, if_pos rfl]
      exact ih h
  | case3 parts hstay =>
      rw [walk, if_neg hstay, if_pos rfl]
      exact h
  | case4 => cases h
  | case5 n hstay hup hlong =>
      rw [walk, if_neg hstay, if_neg hup, if_neg hlong, if_pos rfl]
      exact h
  | case6 => cases h
  | case7 => cases h

theorem place_eq_ok_of {p : Place} (h : d.place path = .ok p) : d'.place path = .ok p := by
  unfold place at h ⊢
  split at h
  next => cases h
  next hnul =>
      rw [if_neg hnul]
      split at h
      next => cases h
      next hlong =>
          rw [if_neg hlong]
          split at h
          next hroot =>
              rw [if_pos hroot]
              exact h
          next hroot =>
              rw [if_neg hroot]
              exact walk_eq_ok_of h

theorem wrote_of_write (h : d.write path text.toUTF8.toList = .ok d') : d.Wrote d' path text := by
  unfold write at h
  split at h
  next => cases h
  next => cases h
  next name hplace =>
      split at h
      next => cases h
      next hslash =>
          obtain rfl := Except.ok.inj h
          have hplace' : (d.insert name text.toUTF8.toList).place path = .ok (.name name) :=
            place_eq_ok_of hplace
          refine ⟨?_, name, hplace, hplace', fun other hother => lookup_insert_of_ne hother⟩
          simp only [Holds, read, hplace', lookup_insert_self, if_neg hslash]

end Directory
end IrSurvey
