import IrSurvey.Yaml.Layout
import IrSurvey.Yaml.Node

/-!
Documents: reading the node that a row of tokens describes. The reader keeps the collections that
are still open and says what is due; each token takes it one state further or is refused. A node may
be left out in most places.
-/
namespace IrSurvey.Yaml
namespace Document

/-- What stands in front of a node. -/
structure Properties where
  anchor : Option Nat := none
  tag : Option String := none
deriving DecidableEq, Repr

/-- The place that a node takes, with what its collection holds so far, last first. -/
inductive Slot
  | item (anchor : Option Nat) (items : List Node)
  /-- An item of a sequence that is not indented against the mapping around it. -/
  | flatItem (anchor : Option Nat) (items : List Node)
  | key (anchor : Option Nat) (members : List (Node × Node))
  | value (anchor : Option Nat) (members : List (Node × Node)) (key : Node)
  | flowItem (anchor : Option Nat) (items : List Node)
  /-- The key of a pair that stands as an item. -/
  | pairKey (anchor : Option Nat) (items : List Node)
  | pairValue (anchor : Option Nat) (items : List Node) (key : Node)
  | flowKey (anchor : Option Nat) (members : List (Node × Node))
  /-- A key without a sign in front, and so without a value. -/
  | bareKey (anchor : Option Nat) (members : List (Node × Node))
  | flowValue (anchor : Option Nat) (members : List (Node × Node)) (key : Node)

/-- A place where a sign of a collection is due. -/
inductive Due
  | entry (anchor : Option Nat) (items : List Node)
  | flatEntry (anchor : Option Nat) (items : List Node)
  | key (anchor : Option Nat) (members : List (Node × Node))
  | value (anchor : Option Nat) (members : List (Node × Node)) (key : Node)
  | afterItem (anchor : Option Nat) (items : List Node)
  | pairValue (anchor : Option Nat) (items : List Node) (key : Node)
  | afterMember (anchor : Option Nat) (members : List (Node × Node))
  | flowValue (anchor : Option Nat) (members : List (Node × Node)) (key : Node)

/-- What comes next. The slots around it stand innermost first. -/
inductive State
  /-- A node, after its properties so far. -/
  | node (properties : Properties) (slots : List Slot)
  | sign (due : Due) (slots : List Slot)
  | done (node : Node)

def pair (key value : Node) : Node :=
  .mapping none [(key, value)]

/-- A complete node goes into its slot. -/
def put (node : Node) : List Slot → State
  | [] => .done node
  | .item a items :: slots => .sign (.entry a (node :: items)) slots
  | .flatItem a items :: slots => .sign (.flatEntry a (node :: items)) slots
  | .key a members :: slots => .sign (.value a members node) slots
  | .value a members key :: slots => .sign (.key a ((key, node) :: members)) slots
  | .flowItem a items :: slots => .sign (.afterItem a (node :: items)) slots
  | .pairKey a items :: slots => .sign (.pairValue a items node) slots
  | .pairValue a items key :: slots => .sign (.afterItem a (pair key node :: items)) slots
  | .flowKey a members :: slots => .sign (.flowValue a members node) slots
  | .bareKey a members :: slots => .sign (.afterMember a ((node, .empty) :: members)) slots
  | .flowValue a members key :: slots => .sign (.afterMember a ((key, node) :: members)) slots

/-- A node that is left out: properties alone make an empty scalar. -/
def blank (p : Properties) : Node :=
  .scalar p.anchor p.tag .plain ""

/-- Block collections stand outside of brackets only. -/
def isBlock : List Slot → Bool
  | [] => true
  | .item .. :: _ => true
  | .flatItem .. :: _ => true
  | .key .. :: _ => true
  | .value .. :: _ => true
  | _ => false

/-- A sequence that is a key or a value of a block mapping need not be indented. -/
def takesFlat : List Slot → Bool
  | .key .. :: _ => true
  | .value .. :: _ => true
  | _ => false

/-- A token where a node is due, other than a reference, an anchor or a tag. -/
def content? (p : Properties) (slots : List Slot) : Token → Option State
  | .scalar style text => some (put (.scalar p.anchor p.tag style text) slots)
  | .flowSequence => some (.node {} (.flowItem p.anchor [] :: slots))
  | .flowMapping => some (.node {} (.bareKey p.anchor [] :: slots))
  | .blockSequence => if isBlock slots then some (.sign (.entry p.anchor []) slots) else none
  | .blockMapping => if isBlock slots then some (.sign (.key p.anchor []) slots) else none
  | .entry => if takesFlat slots then some (.node {} (.flatItem p.anchor [] :: slots)) else none
  | _ => none

/-- A key, or the end of a block mapping. -/
def key? (a : Option Nat) (members : List (Node × Node)) (slots : List Slot) :
    Token → Option State
  | .key => some (.node {} (.key a members :: slots))
  | .blockEnd => some (put (.mapping a members.reverse) slots)
  | _ => none

/-- A value in a block mapping, which may be left out. -/
def value? (a : Option Nat) (members : List (Node × Node)) (key : Node) (slots : List Slot)
    (t : Token) : Option State :=
  if t = .value then some (.node {} (.value a members key :: slots))
  else key? a ((key, .empty) :: members) slots t

/-- An entry of a sequence that is not indented. Any other sign ends it and belongs to the mapping
around it. -/
def flatEntry? (a : Option Nat) (items : List Node) (slots : List Slot) (t : Token) :
    Option State :=
  if t = .entry then some (.node {} (.flatItem a items :: slots))
  else
    match slots with
    | .key b members :: slots => value? b members (.sequence a items.reverse) slots t
    | .value b members key :: slots =>
      key? b ((key, .sequence a items.reverse) :: members) slots t
    | _ => none

def afterItem? (a : Option Nat) (items : List Node) (slots : List Slot) : Token → Option State
  | .flowSequenceEnd => some (put (.sequence a items.reverse) slots)
  | .comma => some (.node {} (.flowItem a items :: slots))
  | _ => none

def afterMember? (a : Option Nat) (members : List (Node × Node)) (slots : List Slot) :
    Token → Option State
  | .flowMappingEnd => some (put (.mapping a members.reverse) slots)
  | .comma => some (.node {} (.bareKey a members :: slots))
  | _ => none

/-- A token where a sign is due. -/
def sign? (slots : List Slot) (t : Token) : Due → Option State
  | .entry a items =>
    match t with
    | .entry => some (.node {} (.item a items :: slots))
    | .blockEnd => some (put (.sequence a items.reverse) slots)
    | _ => none
  | .flatEntry a items => flatEntry? a items slots t
  | .key a members => key? a members slots t
  | .value a members key => value? a members key slots t
  | .afterItem a items => afterItem? a items slots t
  | .pairValue a items key =>
    if t = .value then some (.node {} (.pairValue a items key :: slots))
    else afterItem? a (pair key .empty :: items) slots t
  | .afterMember a members => afterMember? a members slots t
  | .flowValue a members key =>
    if t = .value then some (.node {} (.flowValue a members key :: slots))
    else afterMember? a ((key, .empty) :: members) slots t

/-- A token behind a node that is left out. -/
def resume? (node : Node) (slots : List Slot) (t : Token) : Option State :=
  match put node slots with
  | .sign due slots => sign? slots t due
  | _ => none

/-- A token that leaves out the node of a slot, or ends the collection instead. The sign behind the
empty key of a pair belongs to that key. -/
def omit? (slots : List Slot) (t : Token) : Option State :=
  match slots with
  | .item .. :: _ => if t = .entry ∨ t = .blockEnd then resume? .empty slots t else none
  | .flatItem .. :: _ =>
    if t = .entry ∨ t = .key ∨ t = .value ∨ t = .blockEnd then resume? .empty slots t else none
  | .key .. :: _ => if t = .key ∨ t = .value ∨ t = .blockEnd then resume? .empty slots t else none
  | .value .. :: _ => if t = .key ∨ t = .value ∨ t = .blockEnd then resume? .empty slots t else none
  | .flowItem a items :: outer =>
    match t with
    | .flowSequenceEnd => some (put (.sequence a items.reverse) outer)
    | .key => some (.node {} (.pairKey a items :: outer))
    | _ => none
  | .pairKey .. :: _ =>
    if t = .value ∨ t = .comma ∨ t = .flowSequenceEnd then some (put .empty slots) else none
  | .pairValue .. :: _ =>
    if t = .comma ∨ t = .flowSequenceEnd then resume? .empty slots t else none
  | .flowKey .. :: _ =>
    if t = .value ∨ t = .comma ∨ t = .flowMappingEnd then resume? .empty slots t else none
  | .bareKey a members :: outer =>
    match t with
    | .flowMappingEnd => some (put (.mapping a members.reverse) outer)
    | .key => some (.node {} (.flowKey a members :: outer))
    | _ => none
  | .flowValue .. :: _ =>
    if t = .comma ∨ t = .flowMappingEnd then resume? .empty slots t else none
  | [] => none

/-- What handles of tags stand for. -/
abbrev Handles := List (String × String)

def standardHandles : Handles := [("!", "!"), ("!!", "tag:yaml.org,2002:")]

/-- What a tag stands for, none if its handle is unknown. -/
def tag? (handles : Handles) (handle rest : String) : Option String :=
  if handle = "" then some rest else (handles.lookup handle).map (· ++ rest)

/-- The numbers of the anchors so far. -/
abbrev Anchors := List (String × Nat)

/-- An anchor gets the number of the names known before it, also if its own is one of them. -/
def Anchors.add (anchors : Anchors) (name : String) : Anchors :=
  (name, anchors.length) :: anchors.filter (·.1 ≠ name)

structure Reader where
  state : State
  anchors : Anchors

/-- A token where a node starts, after its properties so far. -/
def start? (handles : Handles) (anchors : Anchors) (p : Properties) (slots : List Slot)
    (t : Token) : Option Reader :=
  match t with
  | .anchor name =>
    if p.anchor = none then
      some {
        state := .node { p with anchor := some anchors.length } slots
        anchors := anchors.add name }
    else none
  | .tag handle rest =>
    if p.tag = none then
      (tag? handles handle rest).map fun tag =>
        { state := .node { p with tag := some tag } slots, anchors }
    else none
  | .reference name =>
    if p = {} then
      (anchors.lookup name).map fun n => { state := put (.reference n) slots, anchors }
    else none
  | t => (content? p slots t).map fun state => { state, anchors }

def step? (handles : Handles) (r : Reader) (t : Token) : Option Reader :=
  let goOn (state : Option State) := state.map fun state => { state, anchors := r.anchors }
  match r.state with
  | .done _ => none
  | .sign due slots => goOn (sign? slots t due)
  | .node p slots =>
    if p = {} then
      match omit? slots t with
      | some state => goOn state
      | none => start? handles r.anchors p slots t
    else
      match start? handles r.anchors p slots t with
      | some r => some r
      | none => goOn (resume? (blank p) slots t)

/-- The node of a document that has content. -/
def content (handles : Handles) (ts : List Token) : Option Node :=
  match ts.foldlM (step? handles) { state := .node {} [], anchors := [] } with
  | some { state := .done node, .. } => some node
  | some { state := .node p [], .. } => if p = {} then none else some (blank p)
  | _ => none

def isDirective : Token → Bool
  | .version .. => true
  | .handle .. => true
  | _ => false

def isOutside : Token → Bool
  | .documentStart => true
  | .documentEnd => true
  | t => isDirective t

/-- The handles that directives give, with the standard ones. A handle must not be given twice, and
the version, given once at most, must be 1.1 or 1.2. -/
def handles? (directives : List Token) : Option Handles :=
  let versions := directives.filterMap fun
    | .version major minor => some (major, minor)
    | _ => none
  let handles := directives.filterMap fun
    | .handle name meaning => some (name, meaning)
    | _ => none
  if versions.length ≤ 1 ∧ versions.all (fun v => v = (1, 1) || v = (1, 2)) ∧
      (handles.map Prod.fst).Nodup then some (handles ++ standardHandles)
  else none

/-- The node of a document whose start is marked or not. Only marks of its end may follow. -/
def node? (marked : Bool) (handles : Handles) (ts : List Token) : Option Node :=
  let body := ts.takeWhile (!isOutside ·)
  if (ts.dropWhile (!isOutside ·)).all (· = .documentEnd) then
    if marked ∧ body = [] then some .empty else content handles body
  else none

end Document

/-- The node of a text with one document. A text without a token means an empty document. -/
def Node.ofTokens? (ts : List Token) : Option Node :=
  let directives := ts.takeWhile Document.isDirective
  (Document.handles? directives).bind fun handles =>
    match ts.dropWhile Document.isDirective with
    | .documentStart :: ts => Document.node? true handles ts
    | [] => if directives = [] then some .empty else none
    | ts => if directives = [] then Document.node? false handles ts else none

def Node.read? (s : String) : Option Node :=
  (Token.all? s.toList).bind ofTokens?

end IrSurvey.Yaml
