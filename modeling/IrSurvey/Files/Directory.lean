import IrSurvey.Files.Path

/-!
A directory of plain files, and what reading and writing by a path does in it.
-/
namespace IrSurvey

/-- Why a file cannot be read or written. -/
inductive FileError
  | notFound
  | notDirectory
  | isDirectory
  | nameTooLong
  /-- A path has a NUL in it. -/
  | nulInPath
  | notText
  /-- A reason with its own words. -/
  | other (reason : String)
deriving DecidableEq, Repr

def FileError.message : FileError → String
  | .notFound => "No such file or directory (os error 2)"
  | .notDirectory => "Not a directory (os error 20)"
  | .isDirectory => "Is a directory (os error 21)"
  | .nameTooLong => "File name too long (os error 36)"
  | .nulInPath => "file name contained an unexpected NUL byte"
  | .notText => "stream did not contain valid UTF-8"
  | .other reason => reason

/-- A way to get the bytes of a file. -/
abbrev ReadFile := String → Except FileError (List UInt8)

/-- The text of a file that holds UTF-8. -/
def ReadFile.text (read : ReadFile) (path : String) : Except FileError String :=
  match read path with
  | .error e => .error e
  | .ok bytes =>
    match String.fromUTF8? (ByteArray.mk bytes.toArray) with
    | some s => .ok s
    | none => .error .notText

/-- Files by name. -/
structure Directory where
  files : List (String × List UInt8)
deriving DecidableEq, Repr

namespace Directory

/-- What a path leads to. -/
inductive Place
  /-- The directory itself, or one above it. -/
  | directory
  | name (n : String)
deriving DecidableEq, Repr

/-- Follows the parts of a path outside the directory, where only the directories above are known. -/
def walkOutside : List (List Char) → Except FileError Place
  | [] => .ok .directory
  | n :: parts =>
    if Path.isStep n then walkOutside parts
    else if Path.isLongPart n then .error .nameTooLong
    else .error .notFound

/-- Follows the parts of a path from the directory on. -/
def walk (d : Directory) : List (List Char) → Except FileError Place
  | [] => .ok .directory
  | n :: parts =>
    if n = ['.'] then walk d parts
    else if n = ['.', '.'] then walkOutside parts
    else if Path.isLongPart n then .error .nameTooLong
    else if parts = [] then .ok (.name (String.ofList n))
    else if (d.files.lookup (String.ofList n)).isSome then .error .notDirectory
    else .error .notFound

def place (d : Directory) (path : String) : Except FileError Place :=
  if '\x00' ∈ path.toList then .error .nulInPath
  else if Path.isLong path then .error .nameTooLong
  else if "/".toList.isPrefixOf path.toList then walkOutside (Path.parts path)
  else walk d (Path.parts path)

/-- A slash at the end asks for a directory. -/
def asksDirectory (path : String) : Bool :=
  path.toList.getLast? = some '/'

def read (d : Directory) : ReadFile := fun path =>
  match d.place path with
  | .error e => .error e
  | .ok .directory => .error .isDirectory
  | .ok (.name n) =>
    match d.files.lookup n with
    | none => .error .notFound
    | some bytes => if asksDirectory path then .error .notDirectory else .ok bytes

/-- The directory with a file of that name, in the place of the one that there was. -/
def insert (d : Directory) (name : String) (bytes : List UInt8) : Directory :=
  { files := (name, bytes) :: d.files.filter (·.1 ≠ name) }

def write (d : Directory) (path : String) (bytes : List UInt8) : Except FileError Directory :=
  match d.place path with
  | .error e => .error e
  | .ok .directory => .error .isDirectory
  | .ok (.name n) =>
    if asksDirectory path then .error .isDirectory else .ok (d.insert n bytes)

end Directory
end IrSurvey
