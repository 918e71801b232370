import IrSurvey.Json.Basic
import IrSurvey.Json.Token

/-!
Reading a JSON text. The reader keeps the arrays and objects that are still open and says what may
come next; each token takes it one state further or is refused.
-/
namespace IrSurvey.Json
namespace Reader

/-- An open array or object, with what stands in it so far, last first. -/
inductive Frame
  | array (items : List Json)
  | object (members : List (Option String × Json)) (key : Option String)

/-- What is due next, and the frames around it, innermost first. -/
inductive State
  | value (frames : List Frame)
  | firstItem (frames : List Frame)
  | afterItem (items : List Json) (frames : List Frame)
  | firstKey (frames : List Frame)
  | key (members : List (Option String × Json)) (frames : List Frame)
  | colon (members : List (Option String × Json)) (key : Option String) (frames : List Frame)
  | afterMember (members : List (Option String × Json)) (frames : List Frame)
  | done (v : Json)

/-- A complete value goes into the innermost frame. -/
def put (v : Json) : List Frame → State
  | [] => .done v
  | .array items :: frames => .afterItem (v :: items) frames
  | .object members key :: frames => .afterMember ((key, v) :: members) frames

def closeObject (members : List (Option String × Json)) : Json :=
  match members.reverse.mapM fun (key, v) => key.map (·, v) with
  | some members => .object members
  | none => .unpaired

/-- A token where a value is due. -/
def startValue? (frames : List Frame) : Token → Option State
  | .openArray => some (.firstItem frames)
  | .openObject => some (.firstKey frames)
  | .null => some (put .null frames)
  | .bool b => some (put (.bool b) frames)
  | .number literal => some (put (.number literal) frames)
  | .string (some s) => some (put (.string s) frames)
  | .string none => some (put .unpaired frames)
  | _ => none

def step? : State → Token → Option State
  | .value frames, t => startValue? frames t
  | .firstItem frames, .closeArray => some (put (.array []) frames)
  | .firstItem frames, t => startValue? (.array [] :: frames) t
  | .afterItem items frames, .comma => some (.value (.array items :: frames))
  | .afterItem items frames, .closeArray => some (put (.array items.reverse) frames)
  | .firstKey frames, .closeObject => some (put (.object []) frames)
  | .firstKey frames, .string key => some (.colon [] key frames)
  | .key members frames, .string key => some (.colon members key frames)
  | .colon members key frames, .colon => some (.value (.object members key :: frames))
  | .afterMember members frames, .comma => some (.key members frames)
  | .afterMember members frames, .closeObject => some (put (closeObject members) frames)
  | _, _ => none

end Reader

/-- Reads a text that is one JSON value. -/
def read? (s : String) : Option Json :=
  match Token.all? s.toList with
  | some ts =>
    match ts.foldlM Reader.step? (.value []) with
    | some (.done v) => some v
    | _ => none
  | none => none

end IrSurvey.Json
