import IrSurvey.Yaml.Cell

/-!
Block scalars: the lines under a header, all at one indent. The header may give the indent and says
what becomes of the breaks at the end.
-/
namespace IrSurvey.Yaml.Block

/-- What is kept of the breaks at the end. -/
inductive Chomp
  | strip
  | clip
  | keep
deriving DecidableEq, Repr

def chomp? : Char → Option Chomp
  | '-' => some .strip
  | '+' => some .keep
  | _ => none

def chompAt (s : List Cell) : Chomp × List Cell :=
  match s with
  | c :: r =>
    match chomp? c.char with
    | some chomp => (chomp, r)
    | none => (.clip, s)
  | [] => (.clip, [])

/-- A digit says how much deeper the text is than the collection around it; zero is refused. -/
def stepAt? (s : List Cell) : Option (Option Nat × List Cell) :=
  match s with
  | c :: r =>
    if c.char = '0' then none
    else if c.char.isDigit then some (some (c.char.toNat - '0'.toNat), r)
    else some (none, s)
  | [] => some (none, [])

/-- The two parts of a header, in either order. -/
def header? (s : List Cell) : Option (Chomp × Option Nat × List Cell) :=
  (stepAt? (chompAt s).2).map fun (step, r) =>
    if (chompAt s).1 = .clip ∧ step.isSome then ((chompAt r).1, step, (chompAt r).2)
    else ((chompAt s).1, step, r)

/-- A column that is still part of the indent, which may not be known yet. -/
def isBefore (indent : Option Nat) (column : Nat) : Bool :=
  indent.all (column < ·)

/-- The breaks of the empty lines in front, the deepest column reached, and the text after them. A
tab must not take part in the indent. -/
def emptyLines? (indent : Option Nat) (deepest : Nat) :
    List Cell → Option (List Char × Nat × List Cell)
  | [] => some ([], deepest, [])
  | c :: s =>
    if isBefore indent c.column ∧ c.char = ' ' then emptyLines? indent deepest s
    else if isBefore indent c.column ∧ c.char = '\t' then none
    else if c.isBreak then
      (emptyLines? indent (max deepest c.column) s).map fun (bs, r) => (c.char :: bs, r)
    else some ([], max deepest c.column, c :: s)

theorem suffix_emptyLines? {indent : Option Nat} {deepest : Nat} {s : List Cell}
    {p : List Char × Nat × List Cell} (h : emptyLines? indent deepest s = some p) :
    p.2.2 <:+ s := by
  fun_induction emptyLines? indent deepest s generalizing p with
  | case1 => cases h; exact List.suffix_refl _
  | case2 deepest c s _ ih => exact (ih h).trans (List.suffix_cons _ _)
  | case3 => cases h
  | case4 deepest c s _ _ _ ih =>
    obtain ⟨q, hq, rfl⟩ := Option.map_eq_some_iff.1 h
    exact (ih hq).trans (List.suffix_cons _ _)
  | case5 => cases h; exact List.suffix_refl _

/-- What was read so far: the text, last character first, the break after its last line, the breaks
of the empty lines since, and whether the last line starts with a gap. -/
structure Lines where
  text : List Char
  lastBreak : List Char
  breaks : List Char
  indented : Bool

/-- A folded text joins two lines by a space unless one of them starts with a gap or empty lines
stand between them. -/
def Lines.append (fold : Bool) (l : Lines) (line : List Char) (lastBreak breaks : List Char) :
    Lines :=
  let indented := line.head?.any Text.isGap
  let folds := fold && l.lastBreak = ['\n'] && !l.indented && !indented
  let between := if ¬ folds then l.lastBreak else if l.breaks = [] then [' '] else []
  { text := (between ++ l.breaks ++ line).reverse ++ l.text, lastBreak, breaks, indented }

/-- Reads the lines at an indent. -/
def lines? (fold : Bool) (indent : Nat) (l : Lines) (s : List Cell) : Option (Lines × List Cell) :=
  match s with
  | [] => some (l, [])
  | c :: r =>
    if c.column = indent then
      let line := c.char :: (r.takeWhile (!Cell.isBreak ·)).map Cell.char
      let rest := r.dropWhile (!Cell.isBreak ·)
      match _h : emptyLines? (some indent) 0 rest.tail with
      | none => none
      | some (breaks, _, next) =>
        lines? fold indent (l.append fold line ((rest.take 1).map Cell.char) breaks) next
    else some (l, s)
termination_by s.length
decreasing_by
  have h₁ := (suffix_emptyLines? _h).length_le
  have h₂ := (List.tail_suffix (r.dropWhile (!Cell.isBreak ·))).length_le
  have h₃ := (List.dropWhile_suffix (l := r) (!Cell.isBreak ·)).length_le
  exact Nat.lt_succ_of_le (Nat.le_trans h₁ (Nat.le_trans h₂ h₃))

theorem suffix_lines? {fold : Bool} {indent : Nat} {l : Lines} {s : List Cell}
    {p : Lines × List Cell} (h : lines? fold indent l s = some p) : p.2 <:+ s := by
  fun_induction lines? fold indent l s generalizing p with
  | case1 => cases h; exact List.suffix_refl _
  | case2 => cases h
  | case3 =>
    rename_i he ih
    exact ((((ih h).trans (suffix_emptyLines? he)).trans (List.tail_suffix _)).trans
      (List.dropWhile_suffix _)).trans (List.suffix_cons _ _)
  | case4 => cases h; exact List.suffix_refl _

def Lines.chomped (l : Lines) : Chomp → List Char
  | .strip => l.text.reverse
  | .clip => l.text.reverse ++ l.lastBreak
  | .keep => l.text.reverse ++ l.lastBreak ++ l.breaks

/-- The text of a scalar after its sign, and the text after the scalar. `least` is the least column
of what stands inside the collection around it. -/
def read? (fold : Bool) (least : Nat) (s : List Cell) : Option (String × List Cell) :=
  (header? s).bind fun (chomp, step, s) =>
  (afterLine? s).bind fun s =>
  (emptyLines? (step.map (least - 1 + ·)) 0 s).bind fun (breaks, deepest, s) =>
  let indent := (step.map (least - 1 + ·)).getD (max deepest (max least 1))
  (lines? fold indent { text := [], lastBreak := [], breaks, indented := false } s).map
    fun (l, r) => (String.ofList (l.chomped chomp), r)

theorem suffix_chompAt (s : List Cell) : (chompAt s).2 <:+ s := by
  unfold chompAt
  split
  · split
    · exact List.suffix_cons _ _
    · exact List.suffix_refl _
  · exact List.suffix_refl _

theorem suffix_stepAt? {s : List Cell} {p : Option Nat × List Cell} (h : stepAt? s = some p) :
    p.2 <:+ s := by
  unfold stepAt? at h
  split at h
  · split at h
    · cases h
    split at h
    · cases h; exact List.suffix_cons _ _
    · cases h; exact List.suffix_refl _
  · cases h; exact List.suffix_refl _

theorem suffix_header? {s : List Cell} {p : Chomp × Option Nat × List Cell}
    (h : header? s = some p) : p.2.2 <:+ s := by
  obtain ⟨q, hq, rfl⟩ := Option.map_eq_some_iff.1 h
  have hs := (suffix_stepAt? hq).trans (suffix_chompAt s)
  dsimp only
  split
  · exact (suffix_chompAt _).trans hs
  · exact hs

theorem suffix_read? {fold : Bool} {least : Nat} {s : List Cell} {p : String × List Cell}
    (h : read? fold least s = some p) : p.2 <:+ s := by
  obtain ⟨a, ha, h⟩ := Option.bind_eq_some_iff.1 h
  obtain ⟨b, hb, h⟩ := Option.bind_eq_some_iff.1 h
  obtain ⟨c, hc, h⟩ := Option.bind_eq_some_iff.1 h
  obtain ⟨d, hd, rfl⟩ := Option.map_eq_some_iff.1 h
  exact (((suffix_lines? hd).trans (suffix_emptyLines? hc)).trans (suffix_afterLine? hb)).trans
    (suffix_header? ha)

end IrSurvey.Yaml.Block
