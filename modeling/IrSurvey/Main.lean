import IrSurvey.Tool.Run
import Std.Time.Format

/-!
The program. The first argument names a tool, and the others are its arguments. Files are read
before the run is worked out; the file that it drafts is written last.
-/
namespace IrSurvey.Main

/-- The number of a refusal, which may come negated. -/
def errorNumber (code : UInt32) : UInt32 :=
  if code < 0x80000000 then code else 0 - code

/-- Why the system refuses a file. -/
def fileError : IO.Error → FileError
  | .noFileOrDirectory .. => .notFound
  | .inappropriateType _ code _ => if errorNumber code = 21 then .isDirectory else .notDirectory
  | .invalidArgument _ code _ => if errorNumber code = 36 then .nameTooLong else .nulInPath
  | .permissionDenied .. => .other "Permission denied (os error 13)"
  | e => .other (toString e)

def readFile (path : String) : IO (Except FileError (List UInt8)) := do
  try
    let bytes ← IO.FS.readBinFile path
    return .ok bytes.toList
  catch e => return .error (fileError e)

def writeFile (path content : String) : IO (Except FileError Unit) := do
  try
    IO.FS.writeFile path content
    return .ok ()
  catch e => return .error (fileError e)

/-- The moment in UTC. -/
def timestamp : IO String := do
  let now ← Std.Time.Timestamp.now
  return (Std.Time.DateTime.ofTimestampWithZone now .UTC).format
    "uuuu-MM-dd'T'HH:mm:ss.SSSSSSSSSxxx"

def fail (f : Failure) : IO UInt32 := do
  IO.eprint f.render
  return 1

/-- Carries out a request. -/
def perform (r : Request) : IO UInt32 := do
  let files ← r.inputs.mapM fun path => return (path, ← readFile path)
  let read : ReadFile := fun path => (files.lookup path).getD (.error .notFound)
  let p := Tool.progress read (← timestamp) r
  p.said.forM fun line => IO.println line
  match p.result with
  | .error f => fail f
  | .ok d =>
    match ← writeFile d.path d.content with
    | .error cause => fail (.unwritable d.what d.path cause)
    | .ok () =>
      d.closing.forM fun line => IO.println line
      return 0

def runTool (tool : Tool) (args : List String) : IO UInt32 := do
  match Command.ofArguments tool args with
  | .help =>
    IO.print tool.usage
    return 0
  | .version =>
    IO.print tool.versionLine
    return 0
  | .misuse =>
    IO.eprint tool.usage
    return 2
  | .run r => perform r

end IrSurvey.Main

open IrSurvey Main in
def main (args : List String) : IO UInt32 := do
  match args with
  | "ir-to-source-tool" :: args => runTool .convert args
  | "report-tool" :: args => runTool .report args
  | _ =>
    IO.eprint (Tool.usage .convert ++ Tool.usage .report)
    return 2
