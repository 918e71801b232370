import IrSurvey.Yaml.Quoted

/-!
Plain scalars: words without quotes, over several lines if the later ones are indented enough.
-/
namespace IrSurvey.Yaml.Plain

/-- The signs that end a word inside a flow collection. -/
def isFlowSign (c : Char) : Bool :=
  c = ',' || c = '[' || c = ']' || c = '{' || c = '}'

/-- A sign that ends a word: a colon with nothing behind it, or a sign of a flow collection. -/
def endsBefore (flow : Bool) (c : Cell) (s : List Cell) : Bool :=
  (c.char = ':' && endsWord s) || (flow && isFlowSign c.char)

/-- In a flow collection, a colon must not lean on a sign. -/
def leans (flow : Bool) (c : Cell) (s : List Cell) : Bool :=
  flow && c.char = ':' && s.head?.any fun d => isFlowSign d.char || d.char = '?'

/-- The rest of a word, possibly empty. -/
def word? (flow : Bool) : List Cell → Option (List Char × List Cell)
  | [] => some ([], [])
  | c :: s =>
    if c.isSpacing then some ([], c :: s)
    else if leans flow c s then none
    else if endsBefore flow c s then some ([], c :: s)
    else (word? flow s).map fun (w, r) => (c.char :: w, r)

theorem suffix_word? {flow : Bool} {s : List Cell} {p : List Char × List Cell}
    (h : word? flow s = some p) : p.2 <:+ s := by
  fun_induction word? flow s generalizing p with
  | case1 => cases h; exact List.suffix_refl _
  | case2 => cases h; exact List.suffix_refl _
  | case3 => cases h
  | case4 => cases h; exact List.suffix_refl _
  | case5 c s _ _ _ ih =>
    obtain ⟨q, hq, rfl⟩ := Option.map_eq_some_iff.1 h
    exact (ih hq).trans (List.suffix_cons _ _)

/-- A tab in the indentation of a later line. -/
def hasStrayTab (indent : Nat) (run : List Cell) : Bool :=
  (run.dropWhile (!Cell.isBreak ·)).any fun c => c.char = '\t' && c.column < indent

/-- No word can follow here: a marker, a comment, or a line without the least indent. -/
def stops (flow : Bool) (indent : Nat) (s : List Cell) : Bool :=
  atMarker s || s.head?.any fun c => c.char = '#' || (!flow && c.column < indent)

/-- The scalar that a character starts: its words with what joins them, whether a line ended behind
the last word, and the text after that. -/
def read? (flow : Bool) (indent : Nat) (c : Cell) (s : List Cell) :
    Option (List Char × Bool × List Cell) :=
  match _h : word? flow s with
  | none => none
  | some (w, r) =>
    let run := r.takeWhile Cell.isSpacing
    let broken := run.any Cell.isBreak
    if hasStrayTab indent run then none
    else
      match _h' : r.dropWhile Cell.isSpacing with
      | [] => some (c.char :: w, broken, [])
      | d :: t =>
        if stops flow indent (d :: t) then some (c.char :: w, broken, d :: t)
        else if leans flow d t then none
        else if endsBefore flow d t then some (c.char :: w, broken, d :: t)
        else
          (read? flow indent d t).map fun (v, broken, r) =>
            (c.char :: w ++ joint (run.map Cell.char) ++ v, broken, r)
termination_by s.length
decreasing_by
  have h₁ := (suffix_word? _h).length_le
  have h₂ := (List.dropWhile_suffix (l := r) Cell.isSpacing).length_le
  rw [_h', List.length_cons] at h₂
  exact Nat.lt_of_lt_of_le h₂ h₁

theorem suffix_read? {flow : Bool} {indent : Nat} {c : Cell} {s : List Cell}
    {p : List Char × Bool × List Cell} (h : read? flow indent c s = some p) : p.2.2 <:+ s := by
  fun_induction read? flow indent c s generalizing p with
  | case1 => cases h
  | case2 => cases h
  | case3 => cases h; exact List.nil_suffix
  | case4 =>
    rename_i hw _ _ _ _ _ ht _
    cases h
    exact ht ▸ (List.dropWhile_suffix _).trans (suffix_word? hw)
  | case5 => cases h
  | case6 =>
    rename_i hw _ _ _ _ _ ht _ _ _
    cases h
    exact ht ▸ (List.dropWhile_suffix _).trans (suffix_word? hw)
  | case7 =>
    rename_i s _ _ hw _ _ d t ht _ _ _ ih
    obtain ⟨q, hq, rfl⟩ := Option.map_eq_some_iff.1 h
    have hs : d :: t <:+ s := ht ▸ (List.dropWhile_suffix _).trans (suffix_word? hw)
    exact ((ih hq).trans (List.suffix_cons _ _)).trans hs

end IrSurvey.Yaml.Plain
