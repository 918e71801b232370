import IrSurvey.Yaml.Lexeme

/-!
The layout of a text: which block collections its indentation opens and closes, and which words turn
out to be keys when a colon follows them.
-/
namespace IrSurvey.Yaml

/-- A place where a key without a sign may have started. -/
structure KeyStart where
  line : Nat
  column : Nat
  offset : Nat
  /-- How many tokens stand before it. -/
  position : Nat
  /-- It stands at the indent of a block collection, where nothing but a key can stand. -/
  required : Bool
deriving Repr

/-- The state between two lexemes. -/
structure Layout where
  /-- The tokens so far, last first. -/
  tokens : List Token
  /-- How many tokens there are so far. -/
  count : Nat
  /-- The columns of the open block collections, innermost first. -/
  columns : List Nat
  /-- The place where a key may have started since the innermost bracket. -/
  start : Option KeyStart
  /-- The same for each open bracket around it. -/
  outer : List (Option KeyStart)
  /-- A key may start here. -/
  keyAllowed : Bool

namespace Layout

def initial : Layout :=
  { tokens := [], count := 0, columns := [], start := none, outer := [], keyAllowed := true }

def inFlow (l : Layout) : Bool :=
  !l.outer.isEmpty

/-- The least column of what stands inside the innermost block collection. -/
def least (l : Layout) : Nat :=
  (l.columns.head?.map (· + 1)).getD 0

def push (l : Layout) (t : Token) : Layout :=
  { l with tokens := t :: l.tokens, count := l.count + 1 }

/-- Gives up a place where a key may have started. -/
def forget? (l : Layout) : Option Layout :=
  match l.start with
  | none => some l
  | some k => if k.required then none else some { l with start := none }

/-- A key ends on its line and within 1024 bytes. -/
def KeyStart.reaches (k : KeyStart) (c : Cell) : Bool :=
  k.line = c.line && c.offset ≤ k.offset + 1024

/-- What is left of a key start at a place. -/
def keep? (c : Cell) : Option KeyStart → Option (Option KeyStart)
  | none => some none
  | some k => if KeyStart.reaches k c then some (some k) else if k.required then none else some none

def expire? (c : Cell) (l : Layout) : Option Layout :=
  (keep? c l.start).bind fun start =>
    (l.outer.mapM (keep? c)).map fun outer => { l with start, outer }

/-- Remembers that a key may start at a place. -/
def remember? (c : Cell) (l : Layout) : Option Layout :=
  if l.keyAllowed then
    l.forget?.map fun l =>
      { l with start := some {
          line := c.line
          column := c.column
          offset := c.offset
          position := l.count
          required := !l.inFlow && l.columns.head? = some c.column } }
  else some l

/-- Closes the block collections that a condition on their columns names. -/
def close (named : Nat → Bool) (l : Layout) : Layout :=
  if l.inFlow then l
  else
    { l with
      tokens := (l.columns.takeWhile named).map (fun _ => Token.blockEnd) ++ l.tokens
      count := (l.columns.takeWhile named).length + l.count
      columns := l.columns.dropWhile named }

/-- Puts tokens behind the first ones. -/
def insert (position : Nat) (ts : List Token) (l : Layout) : Layout :=
  let after := l.count - position
  { l with
    tokens := l.tokens.take after ++ ts.reverse ++ l.tokens.drop after
    count := l.count + ts.length }

/-- A collection starts at a column deeper than the open ones. -/
def opens (l : Layout) (column : Nat) : Bool :=
  !l.inFlow && l.columns.head?.all (· < column)

/-- Starts a block collection unless it is open already. -/
def openBlock (column : Nat) (t : Token) (l : Layout) : Layout :=
  if l.opens column then { l.push t with columns := column :: l.columns } else l

/-- A sign that may start a block collection. -/
def sign? (c : Cell) (collection : Token) (l : Layout) : Option Layout :=
  if l.inFlow then some l
  else if l.keyAllowed then some (l.openBlock c.column collection)
  else none

/-- A colon makes a key of what stands before it. -/
def value? (c : Cell) (l : Layout) : Option Layout :=
  match l.start with
  | some k =>
    let opened := if l.opens k.column then
      { l.insert k.position [.blockMapping, .key] with columns := k.column :: l.columns }
      else l.insert k.position [.key]
    some { opened.push .value with start := none, keyAllowed := false }
  | none =>
    (l.sign? c .blockMapping).map fun l => { l.push .value with keyAllowed := !l.inFlow }

/-- The layout after a lexeme at a place. -/
def take? (c : Cell) (x : Lexeme) (l : Layout) : Option Layout :=
  match x with
  | .outside t => (l.close fun _ => true).forget?.map fun l => { l.push t with keyAllowed := false }
  | .opening t =>
    (l.remember? c).map fun l =>
      { l.push t with start := none, outer := l.start :: l.outer, keyAllowed := true }
  | .closing t =>
    l.forget?.map fun l =>
      match l.outer with
      | start :: outer => { l.push t with start, outer, keyAllowed := false }
      | [] => { l.push t with keyAllowed := false }
  | .comma => l.forget?.map fun l => { l.push .comma with keyAllowed := true }
  | .entry =>
    ((l.sign? c .blockSequence).bind forget?).map fun l =>
      { l.push .entry with keyAllowed := true }
  | .key =>
    ((l.sign? c .blockMapping).bind forget?).map fun l =>
      { l.push .key with keyAllowed := !l.inFlow }
  | .value => l.value? c
  | .content t broken => (l.remember? c).map fun l => { l.push t with keyAllowed := broken }
  | .block t => l.forget?.map fun l => { l.push t with keyAllowed := true }

/-- The text without gaps, comments and empty lines in front, and whether a key may start there. A
tab is no gap where a key may start outside of brackets. A byte order mark that starts a line is
passed over, and only shifts the column of what follows it. -/
def skip (flow : Bool) (comment keyAllowed : Bool) : List Cell → Bool × List Cell
  | [] => (keyAllowed, [])
  | c :: s =>
    if c.isBreak then skip flow false (keyAllowed || !flow) s
    else if comment then skip flow true keyAllowed s
    else if c.isOrderMark then skip flow false keyAllowed s
    else if c.char = ' ' ∨ (c.char = '\t' ∧ (flow ∨ ¬ keyAllowed)) then skip flow false keyAllowed s
    else if c.char = '#' then skip flow true keyAllowed s
    else (keyAllowed, c :: s)

theorem suffix_skip (flow comment keyAllowed : Bool) (s : List Cell) :
    (skip flow comment keyAllowed s).2 <:+ s := by
  fun_induction skip flow comment keyAllowed s with
  | case1 => exact List.suffix_refl _
  | case7 => exact List.suffix_refl _
  | _ => rename_i ih; exact ih.trans (List.suffix_cons _ _)

/-- The layout when a character is reached. -/
def reach? (c : Cell) (keyAllowed : Bool) (l : Layout) : Option Layout :=
  (expire? c { l with keyAllowed }).map (close (c.column < ·))

/-- The tokens of a text, from some state on. -/
def tokens? (l : Layout) (s : List Cell) : Option (List Token) :=
  match _h : skip l.inFlow false l.keyAllowed s with
  | (_, []) => (l.close fun _ => true).forget?.map fun l => l.tokens.reverse
  | (keyAllowed, c :: r) =>
    match l.reach? c keyAllowed with
    | none => none
    | some reached =>
      match _h' : Lexeme.read? reached.inFlow reached.least c r with
      | none => none
      | some (x, rest) =>
        match reached.take? c x with
        | none => none
        | some next => tokens? next rest
termination_by s.length
decreasing_by
  have h₁ := (suffix_skip l.inFlow false l.keyAllowed s).length_le
  have h₂ := (Lexeme.suffix_read? _h').length_le
  rw [_h, List.length_cons] at h₁
  exact Nat.lt_of_le_of_lt h₂ h₁

end Layout

/-- The tokens of a text. -/
def Token.all? (s : List Char) : Option (List Token) :=
  (cells? s).bind Layout.initial.tokens?

end IrSurvey.Yaml
