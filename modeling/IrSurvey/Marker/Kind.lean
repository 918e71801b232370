/-!
The six obfuscation techniques that leave marks in a listing, and how reports speak of them.
-/
namespace IrSurvey

inductive MarkerKind
  | stringEncryption
  | opaquePredicate
  | bogusCode
  | fakeLoop
  | virtualization
  | controlFlowFlattening
deriving DecidableEq, Repr

namespace MarkerKind

/-- Every kind, in the order of reports. -/
def all : List MarkerKind := [
  .stringEncryption, .opaquePredicate, .bogusCode, .fakeLoop, .virtualization,
  .controlFlowFlattening]

/-- The name of a kind in data. -/
def key : MarkerKind → String
  | .stringEncryption => "STRING_ENCRYPTION"
  | .opaquePredicate => "OPAQUE_PREDICATE"
  | .bogusCode => "BOGUS_CODE"
  | .fakeLoop => "FAKE_LOOP"
  | .virtualization => "VIRTUALIZATION"
  | .controlFlowFlattening => "CONTROL_FLOW_FLATTENING"

def ofKey? (key : String) : Option MarkerKind :=
  all.find? (·.key = key)

def label : MarkerKind → String
  | .stringEncryption => "String Encryption"
  | .opaquePredicate => "Opaque Predicates"
  | .bogusCode => "Bogus Code"
  | .fakeLoop => "Fake Loops"
  | .virtualization => "Code Virtualization"
  | .controlFlowFlattening => "Control Flow Flattening"

def description : MarkerKind → String
  | .stringEncryption => "Strings are encrypted at compile time and decrypted at runtime"
  | .opaquePredicate =>
    "Conditional branches with always-true/false conditions to confuse analysis"
  | .bogusCode => "Dead code blocks inserted to mislead reverse engineers"
  | .fakeLoop => "Loops that never execute to add complexity"
  | .virtualization => "Functions converted to bytecode interpreted by a virtual machine"
  | .controlFlowFlattening => "Control flow restructured using switch-based dispatchers"

end MarkerKind
end IrSurvey
