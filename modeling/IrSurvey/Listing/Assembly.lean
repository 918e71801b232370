import IrSurvey.Listing.Body
import IrSurvey.Listing.Definition
import IrSurvey.Listing.Literal
import IrSurvey.Listing.Parameter
import IrSurvey.Listing.Payload

/-!
The listing of a text. Functions are keyed by name: a later definition takes the place of an earlier
one. Names reserved for the toolchain make no function.
-/
namespace IrSurvey.Listing

def Function.ofDefinition (d : Definition) : Function :=
  let items := Body.items d.body.toList
  { name := d.name
    returnType := d.returnType
    parameters := Parameter.all d.params.toList
    instructions := Body.instructions items
    labels := Body.labels 0 items }

/-- Names that start with two underscores, and intrinsics. -/
def isReserved (name : String) : Bool :=
  "__".toList.isPrefixOf name.toList || "llvm.".toList.isPrefixOf name.toList

/-- Puts a function in the place of the one with its name, or at the end. -/
def insertFunction (fs : List Function) (f : Function) : List Function :=
  match fs with
  | [] => [f]
  | g :: fs => if g.name = f.name then f :: fs else g :: insertFunction fs f

def functionsOf (ds : List Definition) : List Function :=
  ((ds.filter (!isReserved ·.name)).map Function.ofDefinition).foldl insertFunction []

def StringConstant.ofLiteral (l : Literal) : StringConstant :=
  { name := l.name, raw := l.payload, decoded := Payload.decode l.payload }

def ofText (s : String) : Listing :=
  { functions := functionsOf (Definition.all s.toList)
    globals := Declaration.all s.toList
    strings := (Literal.all s.toList).map StringConstant.ofLiteral }

/-- What a global is initialised with: its tail up to the first comma. -/
def Global.initializer (g : Global) : String :=
  String.ofList (Text.trim (g.tail.toList.takeWhile (· ≠ ',')))

end IrSurvey.Listing
