import IrSurvey.Listing.Assembly
import IrSurvey.Marker.Counts

/-!
Metrics: a complexity row for each function, and the totals of a listing. With the listing and the
marks they are everything that is drawn from a text.
-/
namespace IrSurvey
open Listing (Function)

/-- A function whose complexity is above this counts as obfuscated. -/
def complexityThreshold : Nat := 10

def Listing.Function.isObfuscated (f : Function) : Bool :=
  complexityThreshold < f.complexity

/-- The complexity row of a function. -/
structure FunctionMetrics where
  name : String
  basicBlocks : Nat
  instructions : Nat
  complexity : Nat
  obfuscated : Bool
deriving DecidableEq, Repr

def FunctionMetrics.ofFunction (f : Function) : FunctionMetrics where
  name := f.name
  basicBlocks := f.blockCount
  instructions := f.instructions.length
  complexity := f.complexity
  obfuscated := f.isObfuscated

/-- The rows of a listing, in its order. -/
def Listing.functionMetrics (l : Listing) : List FunctionMetrics :=
  l.functions.map FunctionMetrics.ofFunction

/-- The totals of a listing. Single instructions are not told apart, so all of them count as
obfuscated. -/
structure ListingMetrics where
  totalFunctions : Nat
  obfuscatedFunctions : Nat
  totalInstructions : Nat
  obfuscatedInstructions : Nat
  stringEncryptions : Nat
  opaquePredicates : Nat
  bogusCodeBlocks : Nat
  fakeLoops : Nat
  virtualizedFunctions : Nat
  controlFlowObfuscations : Nat
deriving DecidableEq, Repr

def ListingMetrics.of (l : Listing) (m : MarkerCounts) : ListingMetrics where
  totalFunctions := l.functions.length
  obfuscatedFunctions := l.functions.countP Function.isObfuscated
  totalInstructions := l.instructionCount
  obfuscatedInstructions := l.instructionCount
  stringEncryptions := m.get .stringEncryption
  opaquePredicates := m.get .opaquePredicate
  bogusCodeBlocks := m.get .bogusCode
  fakeLoops := m.get .fakeLoop
  virtualizedFunctions := m.get .virtualization
  controlFlowObfuscations := m.get .controlFlowFlattening

/-- Everything that is drawn from the text of a listing. -/
structure Analysis where
  listing : Listing
  markers : MarkerCounts
  metrics : ListingMetrics

def Analysis.ofText (s : String) : Analysis :=
  let listing := Listing.ofText s
  let markers := MarkerCounts.ofText s
  { listing, markers, metrics := .of listing markers }

end IrSurvey
