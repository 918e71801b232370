import IrSurvey.Text.Blank

/-!
C types for IR types. A pointer is found anywhere among the words of a type; otherwise the first
word with a C type decides, and `int` stands for every type without one.
-/
namespace IrSurvey.CType
open Text

/-- The C type of a scalar type. -/
def ofWord? (w : List Char) : Option String :=
  match String.ofList w with
  | "i1" => some "bool"
  | "i8" => some "char"
  | "i16" => some "short"
  | "i32" => some "int"
  | "i64" => some "long long"
  | "float" => some "float"
  | "double" => some "double"
  | "void" => some "void"
  | _ => none

def isPointer (s : List Char) : Bool :=
  (trim s).getLast? = some '*' || (words s).contains "ptr".toList

def ofType (s : List Char) : String :=
  if isPointer s then "void*" else ((words s).findSome? ofWord?).getD "int"

end IrSurvey.CType
