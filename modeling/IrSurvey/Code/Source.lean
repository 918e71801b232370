import IrSurvey.Code.Body
import IrSurvey.Code.CType
import IrSurvey.Code.Literal
import IrSurvey.Listing.Assembly

/-!
The source listing: a heading, the globals and the named strings as comments, and every function in
C-like form, with a signature and the shown lines of its body.
-/
namespace IrSurvey.Code
open Listing (Function Global Parameter StringConstant)

/-- A parameter with its C type. One without a name is named by its index. -/
def parameterText (p : Parameter) (index : Nat) : String :=
  CType.ofType p.type.toList ++ " " ++ p.name.getD ("arg" ++ toString index)

def signature (f : Function) : String :=
  CType.ofType f.returnType.toList ++ " " ++ f.name ++ "(" ++
    ", ".intercalate (f.parameters.zipIdx.map fun (p, i) => parameterText p i) ++ ")"

def functionText (profile : Profile) (f : Function) : String :=
  signature f ++ " \x7b\n" ++
    String.join ((bodyLines profile f).map fun line => "    " ++ line ++ "\n") ++ "\x7d"

def heading : List String := [
  "// Decompiled C code from obfuscated LLVM IR",
  "// Note: This is an approximation - exact reconstruction may not be possible",
  "",
  "#include <stdio.h>",
  "#include <stdlib.h>",
  ""]

def globalLine (g : Global) : String :=
  "// " ++ g.name ++ " = " ++ g.initializer

/-- The line of a string that has a name. -/
def stringLine? (s : StringConstant) : Option String :=
  s.name.map fun name => "// const char* " ++ name ++ " = \"" ++ CLiteral.escape s.decoded ++ "\";"

/-- Lines under a title, with an empty line after them; nothing if there are none. -/
def block (title : String) (lines : List String) : List String :=
  if lines = [] then [] else title :: lines ++ [""]

def sourceListing (profile : Profile) (l : Listing) : String :=
  "\n".intercalate (heading ++
    block "// Global variables" (l.globals.map globalLine) ++
    block "// String constants" (l.strings.filterMap stringLine?) ++
    l.functions.flatMap fun f => [functionText profile f, ""])

/-- How many lines of a raw listing stand in for its functions. -/
def rawLines : Nat := 50

/-- The functions one after the other, or the first lines of the raw text if there is none. -/
def overview (profile : Profile) (text : String) (l : Listing) : String :=
  if l.functions = [] then
    "\n".intercalate (((Text.endedLines text.toList).take rawLines).map String.ofList) ++
      "\n\n// ... (truncated for display) ..."
  else String.join (l.functions.map fun f => functionText profile f ++ "\n\n")

end IrSurvey.Code
