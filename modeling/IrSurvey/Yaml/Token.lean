/-!
Tokens of YAML. Indentation shows in them as the start and the end of block collections; the end of
the list is the end of the text.
-/
namespace IrSurvey.Yaml

/-- How a scalar is written. -/
inductive Style
  | plain
  | quoted
  | literal
  | folded
deriving DecidableEq, Repr

inductive Token
  | version (major minor : Nat)
  /-- What a handle stands for at the front of tags. -/
  | handle (name meaning : String)
  | documentStart
  | documentEnd
  | blockSequence
  | blockMapping
  | blockEnd
  | flowSequence
  | flowSequenceEnd
  | flowMapping
  | flowMappingEnd
  | entry
  | comma
  | key
  | value
  | anchor (name : String)
  | reference (name : String)
  /-- A tag with an empty handle is complete. -/
  | tag (handle rest : String)
  | scalar (style : Style) (text : String)
deriving DecidableEq, Repr

end IrSurvey.Yaml
