/-!
Paths as they are written: parts between slashes.
-/
namespace IrSurvey.Path

/-- The parts of a path that name something; empty parts mean nothing. -/
def parts (path : String) : List (List Char) :=
  (path.toList.splitOn '/').filter (· ≠ [])

/-- The part that stays where the path is, and the one that goes up. -/
def isStep (part : List Char) : Bool :=
  part = ['.'] || part = ['.', '.']

/-- A part may have 255 bytes. -/
def isLongPart (part : List Char) : Bool :=
  255 < (String.ofList part).utf8ByteSize

/-- A path may have 4095 bytes. -/
def isLong (path : String) : Bool :=
  4095 < path.utf8ByteSize

/-- The name of what a path leads to, unless it ends by going up. -/
def fileName? (path : String) : Option (List Char) :=
  match ((parts path).filter (· ≠ ['.'])).getLast? with
  | some name => if name = ['.', '.'] then none else some name
  | none => none

/-- What follows the last dot of the file name. A dot in front of the name does not count. -/
def extension? (path : String) : Option String :=
  match fileName? path with
  | some name =>
    let ext := (name.reverse.takeWhile (· ≠ '.')).reverse
    if ext.length + 1 < name.length then some (String.ofList ext) else none
  | none => none

end IrSurvey.Path
