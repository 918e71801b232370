import IrSurvey.Text.Digit
import IrSurvey.Yaml.Cell
import IrSurvey.Yaml.Token

/-!
Anchors, references, tags and directives: the short signs that stand before a node or before a
document.
-/
namespace IrSurvey.Yaml.Tag
open Text (numberOf?)

/-- The signs that may follow a name directly. -/
def isNameEnd (c : Char) : Bool :=
  "?:,]\x7d%@\x60".toList.contains c

/-- The name of an anchor, after its sign. -/
def name? (s : List Cell) : Option (String × List Cell) :=
  let (name, r) := nameAt s
  if name ≠ [] ∧ (endsWord r ∨ r.head?.any (isNameEnd ·.char)) then some (String.ofList name, r)
  else none

/-- The characters of tags; a tag between angle brackets may hold signs of flow collections too. -/
def isTagChar (verbatim : Bool) (c : Char) : Bool :=
  isNameChar c || ";/?:@&=+$.!~*\'()".toList.contains c || (verbatim && ",[]".toList.contains c)

/-- How many octets follow a first octet in UTF-8. -/
def octetsAfter? (n : Nat) : Option Nat :=
  if n < 0x80 then some 0
  else if n / 0x20 = 0x6 then some 1
  else if n / 0x10 = 0xE then some 2
  else if n / 0x8 = 0x1E then some 3
  else none

/-- How many octets are due after an octet when `due` were due before it. -/
def stillDue? (due n : Nat) : Option Nat :=
  match due with
  | 0 => octetsAfter? n
  | due + 1 => if n / 0x40 = 0x2 then some due else none

/-- The characters of a tag. An escaped octet stands as one character; `due` octets must follow to
complete the last sequence. -/
def chars? (verbatim : Bool) (due : Nat) (s : List Cell) : Option (List Char × List Cell) :=
  match s with
  | [] => if due = 0 then some ([], []) else none
  | c :: s =>
    if c.char = '%' then
      match s with
      | a :: b :: r =>
        match numberOf? 16 [a.char, b.char] with
        | some n =>
          match stillDue? due n with
          | some due => (chars? verbatim due r).map fun (cs, r) => (Char.ofNat n :: cs, r)
          | none => none
        | none => none
      | _ => none
    else if due ≠ 0 then none
    else if isTagChar verbatim c.char then
      (chars? verbatim 0 s).map fun (cs, r) => (c.char :: cs, r)
    else some ([], c :: s)

/-- The text that characters of a tag make. An escaped NUL ends it, whatever stands behind. -/
def text (cs : List Char) : String :=
  String.ofList (cs.takeWhile (· ≠ '\x00'))

/-- One character or more. -/
def someChars? (verbatim : Bool) (s : List Cell) : Option (List Char × List Cell) :=
  (chars? verbatim 0 s).filter (·.1 ≠ [])

/-- A tag after its exclamation mark: complete between angle brackets, with a named handle, or with
the handle of one exclamation mark. That mark alone is a tag too. -/
def form? (s : List Cell) : Option (Token × List Cell) :=
  match s with
  | [] => some (.tag "" "!", [])
  | c :: r =>
    if c.char = '<' then
      match someChars? true r with
      | some (cs, e :: r) => if e.char = '>' then some (.tag "" (text cs), r) else none
      | _ => none
    else
      let (name, after) := nameAt s
      if after.head?.any (·.char = '!') then
        (someChars? false after.tail).map fun (cs, r) =>
          (.tag ("!" ++ String.ofList name ++ "!") (text cs), r)
      else
        (chars? false 0 after).map fun (cs, r) =>
          if text (name ++ cs) = "" then (.tag "" "!", r) else (.tag "!" (text (name ++ cs)), r)

/-- In a flow collection a comma may follow a tag directly. -/
def read? (flow : Bool) (s : List Cell) : Option (Token × List Cell) :=
  (form? s).filter fun p => endsWord p.2 || (flow && p.2.head?.any (·.char = ','))

/-- A number of a version: nine digits at most. -/
def number? (s : List Cell) : Option (Nat × List Cell) :=
  let digits := (s.takeWhile (·.char.isDigit)).map Cell.char
  if digits = [] ∨ 9 < digits.length then none
  else (numberOf? 10 digits).map fun n => (n, s.dropWhile (·.char.isDigit))

def version? (s : List Cell) : Option (Token × List Cell) :=
  match number? (s.dropWhile Cell.isGap) with
  | some (major, c :: r) =>
    if c.char = '.' then (number? r).map fun (minor, r) => (.version major minor, r) else none
  | _ => none

/-- The handle of a directive: one exclamation mark, or a name between two. -/
def handleName? (s : List Cell) : Option (String × List Cell) :=
  match s with
  | c :: r =>
    let (name, after) := nameAt r
    if c.char ≠ '!' then none
    else if after.head?.any (·.char = '!') then
      some ("!" ++ String.ofList name ++ "!", after.tail)
    else if name = [] then some ("!", after)
    else none
  | [] => none

def handle? (s : List Cell) : Option (Token × List Cell) :=
  match handleName? (s.dropWhile Cell.isGap) with
  | some (name, r) =>
    if r.head?.any Cell.isGap then
      ((someChars? true (r.dropWhile Cell.isGap)).filter fun p => endsWord p.2).map fun (cs, r) =>
        (.handle name (text cs), r)
    else none
  | none => none

/-- A directive after its percent sign, and the text after its line. -/
def directive? (s : List Cell) : Option (Token × List Cell) :=
  let (name, r) := nameAt s
  if ¬ endsWord r then none
  else
    (match String.ofList name with
      | "YAML" => version? r
      | "TAG" => handle? r
      | _ => none).bind fun (t, r) => (afterLine? r).map fun r => (t, r)

theorem suffix_nameAt (s : List Cell) : (nameAt s).2 <:+ s :=
  List.dropWhile_suffix _

theorem suffix_name? {s : List Cell} {p : String × List Cell} (h : name? s = some p) :
    p.2 <:+ s := by
  simp only [name?] at h
  split at h
  · cases h; exact suffix_nameAt s
  · cases h

theorem suffix_chars? {verbatim : Bool} {due : Nat} {s : List Cell} {p : List Char × List Cell}
    (h : chars? verbatim due s = some p) : p.2 <:+ s := by
  fun_induction chars? verbatim due s generalizing p with
  | case3 due c _ a b r n _ d _ ih =>
    obtain ⟨q, hq, rfl⟩ := Option.map_eq_some_iff.1 h
    exact (ih hq).trans ⟨[c, a, b], rfl⟩
  | case8 =>
    rename_i ih
    obtain ⟨q, hq, rfl⟩ := Option.map_eq_some_iff.1 h
    exact (ih hq).trans (List.suffix_cons _ _)
  | _ => cases h <;> exact List.suffix_refl _

theorem suffix_someChars? {verbatim : Bool} {s : List Cell} {p : List Char × List Cell}
    (h : someChars? verbatim s = some p) : p.2 <:+ s :=
  suffix_chars? (Option.filter_eq_some_iff.1 h).1

theorem suffix_form? {s : List Cell} {p : Token × List Cell} (h : form? s = some p) :
    p.2 <:+ s := by
  unfold form? at h
  split at h
  · cases h; exact List.suffix_refl _
  next c r =>
    split at h
    · split at h
      next cs e r' hc =>
        split at h
        · cases h
          exact ((List.suffix_cons _ _).trans (suffix_someChars? hc)).trans (List.suffix_cons _ _)
        · cases h
      next => cases h
    · dsimp only at h
      split at h
      · obtain ⟨q, hq, rfl⟩ := Option.map_eq_some_iff.1 h
        exact ((suffix_someChars? hq).trans (List.tail_suffix _)).trans (suffix_nameAt _)
      · obtain ⟨q, hq, rfl⟩ := Option.map_eq_some_iff.1 h
        have hs := (suffix_chars? hq).trans (suffix_nameAt (c :: r))
        split
        · exact hs
        · exact hs

theorem suffix_read? {flow : Bool} {s : List Cell} {p : Token × List Cell}
    (h : read? flow s = some p) : p.2 <:+ s :=
  suffix_form? (Option.filter_eq_some_iff.1 h).1

theorem suffix_number? {s : List Cell} {p : Nat × List Cell} (h : number? s = some p) :
    p.2 <:+ s := by
  simp only [number?] at h
  split at h
  · cases h
  · obtain ⟨n, _, rfl⟩ := Option.map_eq_some_iff.1 h
    exact List.dropWhile_suffix _

theorem suffix_version? {s : List Cell} {p : Token × List Cell} (h : version? s = some p) :
    p.2 <:+ s := by
  unfold version? at h
  split at h
  next major c r hn =>
    split at h
    · obtain ⟨q, hq, rfl⟩ := Option.map_eq_some_iff.1 h
      exact (((suffix_number? hq).trans (List.suffix_cons _ _)).trans (suffix_number? hn)).trans
        (List.dropWhile_suffix _)
    · cases h
  next => cases h

theorem suffix_handleName? {s : List Cell} {p : String × List Cell}
    (h : handleName? s = some p) : p.2 <:+ s := by
  unfold handleName? at h
  split at h
  next c r =>
    have hs := (suffix_nameAt r).trans (List.suffix_cons c r)
    dsimp only at h
    split at h
    · cases h
    split at h
    · cases h; exact (List.tail_suffix _).trans hs
    split at h
    · cases h; exact hs
    · cases h
  next => cases h

theorem suffix_handle? {s : List Cell} {p : Token × List Cell} (h : handle? s = some p) :
    p.2 <:+ s := by
  unfold handle? at h
  split at h
  next name r hn =>
    split at h
    · obtain ⟨q, hq, rfl⟩ := Option.map_eq_some_iff.1 h
      exact (((suffix_someChars? (Option.filter_eq_some_iff.1 hq).1).trans
        (List.dropWhile_suffix _)).trans (suffix_handleName? hn)).trans (List.dropWhile_suffix _)
    · cases h
  next => cases h

theorem suffix_directive? {s : List Cell} {p : Token × List Cell} (h : directive? s = some p) :
    p.2 <:+ s := by
  simp only [directive?] at h
  split at h
  · cases h
  obtain ⟨q, hq, h⟩ := Option.bind_eq_some_iff.1 h
  obtain ⟨r, hr, rfl⟩ := Option.map_eq_some_iff.1 h
  refine ((suffix_afterLine? hr).trans ?_).trans (suffix_nameAt s)
  split at hq
  · exact suffix_version? hq
  · exact suffix_handle? hq
  · cases hq

end IrSurvey.Yaml.Tag
