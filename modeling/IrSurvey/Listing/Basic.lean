/-!
What a listing holds: functions with their parameters, instruction lines and block labels, global
symbols, and string constants. Nothing here interprets an instruction.
-/
namespace IrSurvey

namespace Listing

/-- A parameter of a function. Its type keeps the attributes as they are written. -/
structure Parameter where
  type : String
  name : Option String
deriving DecidableEq, Repr

/-- A parameter is shown by its name, or by its type if it has none. -/
def Parameter.descriptor (p : Parameter) : String :=
  p.name.getD p.type

/-- A numeric label, and how many instructions stand before it. -/
structure BlockLabel where
  label : String
  position : Nat
deriving DecidableEq, Repr

structure Function where
  name : String
  returnType : String
  parameters : List Parameter
  instructions : List String
  labels : List BlockLabel
deriving DecidableEq, Repr

namespace Function

def blockCount (f : Function) : Nat :=
  f.labels.length

/-- One point for each instruction and two for each labelled block. -/
def complexity (f : Function) : Nat :=
  f.instructions.length + 2 * f.blockCount

end Function

inductive GlobalKind
  | global
  | constant
deriving DecidableEq, Repr

def GlobalKind.keyword : GlobalKind → String
  | .global => "global"
  | .constant => "constant"

/-- A global symbol, with what its line says after the keyword. -/
structure Global where
  name : String
  kind : GlobalKind
  tail : String
deriving DecidableEq, Repr

/-- A string literal, as written and as decoded, with the symbol that its line binds. -/
structure StringConstant where
  name : Option String
  raw : String
  decoded : String
deriving DecidableEq, Repr

end Listing

structure Listing where
  functions : List Listing.Function
  globals : List Listing.Global
  strings : List Listing.StringConstant
deriving DecidableEq, Repr

namespace Listing

def function? (l : Listing) (name : String) : Option Function :=
  l.functions.find? (·.name = name)

def instructionCount (l : Listing) : Nat :=
  (l.functions.map (·.instructions.length)).foldr (· + ·) 0

end Listing
end IrSurvey
