import CrowdScenario.Bytes
import CrowdScenario.Location

/-!
# Directories

Files by location, and what goes wrong when they are read or written. A `Directory` holds files
under lists of names; a path is followed name by name.
-/

namespace CrowdScenario

inductive FileError where
  | notFound
  | notDirectory
  | isDirectory
  | nameTooLong
  | nulInName
  | notText
  | other (description : String)
deriving DecidableEq

namespace FileError

def message : FileError → String
  | notFound => "No such file or directory (os error 2)"
  | notDirectory => "Not a directory (os error 20)"
  | isDirectory => "Is a directory (os error 21)"
  | nameTooLong => "File name too long (os error 36)"
  | nulInName => "file name contained an unexpected NUL byte"
  | notText => "stream did not contain valid UTF-8"
  | other description => description

end FileError

abbrev FileReader := String → Except FileError Bytes

def FileReader.text (read : FileReader) (path : String) : Except FileError String :=
  match read path with
  | .error e => .error e
  | .ok bytes =>
    match Bytes.toText? bytes with
    | some s => .ok s
    | none => .error .notText

/-- Files under the names that lead to them. -/
structure Directory where
  files : List (List String × Bytes)
deriving DecidableEq

namespace Directory

inductive Place where
  | file (content : Bytes)
  | directory
  | nothing

/-- What the names lead to; all names leading to a file lead to directories before the last. -/
def place (d : Directory) (names : List String) : Place :=
  match d.files.lookup names with
  | some content => .file content
  | none =>
    if names = [] ∨ d.files.any fun f => names.isPrefixOf f.1 then .directory else .nothing

/-- Where a path has led: to the directory with the given names, or outside, where no files are
known. -/
abbrev Whereabouts := Option (List String)

/-- The names in a directory that lead to what has the given name in it. -/
def placeIn (d : Directory) (here : Whereabouts) (name : String) : Place :=
  match here with
  | some names => d.place (names ++ [name])
  | none => .nothing

/-- Names that are no names of files: they stay in a directory or leave it. -/
def isStep (name : String) : Bool := name = "" ∨ name = "." ∨ name = ".."

/-- Where a step leads. What is above the directory is outside. -/
def step (here : Whereabouts) (name : String) : Whereabouts :=
  if name = ".." then
    here.bind fun names => if names = [] then none else some names.dropLast
  else here

def longestName : Nat := 255
def longestPath : Nat := 4095

def follow (d : Directory) (here : Whereabouts) : List String → Except FileError Whereabouts
  | [] => .ok here
  | name :: rest =>
    if isStep name then d.follow (step here name) rest
    else if name.utf8ByteSize > longestName then .error .nameTooLong
    else
      match d.placeIn here name with
      | .directory => d.follow (here.map (· ++ [name])) rest
      | .file _ => .error .notDirectory
      | .nothing => .error .notFound

/-- The end of a path: the name in a directory that it leads to. -/
structure Destination where
  here : Whereabouts
  name : String
  /-- Slashes follow the name, so that it has to be the name of a directory. -/
  isClosed : Bool

def locate (d : Directory) (path : String) : Except FileError Destination :=
  if path = "" then .error .notFound
  else if path.toList.contains '\x00' then .error .nulInName
  else if path.utf8ByteSize > longestPath then .error .nameTooLong
  else
    let names := Location.names path
    let named := (names.reverse.dropWhile (· = "")).reverse
    let start : Whereabouts := if Location.isAbsolute path then none else some []
    (d.follow start named.dropLast).map fun here =>
      ⟨here, named.getLast?.getD "", named.length < names.length⟩

def read (d : Directory) : FileReader := fun path =>
  match d.locate path with
  | .error e => .error e
  | .ok place =>
    if isStep place.name then .error .isDirectory
    else if place.name.utf8ByteSize > longestName then .error .nameTooLong
    else
      match d.placeIn place.here place.name with
      | .file content => if place.isClosed then .error .notDirectory else .ok content
      | .directory => .error .isDirectory
      | .nothing => .error .notFound

/-- The directory with a file at a path, new or in the place of an old one. Nothing can be written
outside. -/
def write (d : Directory) (path : String) (content : Bytes) : Except FileError Directory :=
  match d.locate path with
  | .error e => .error e
  | .ok place =>
    if isStep place.name ∨ place.isClosed then .error .isDirectory
    else if place.name.utf8ByteSize > longestName then .error .nameTooLong
    else
      match place.here with
      | none => .error .notFound
      | some here =>
        let names := here ++ [place.name]
        match d.place names with
        | .directory => .error .isDirectory
        | _ => .ok ⟨(names, content) :: d.files.filter (·.1 ≠ names)⟩

end Directory

end CrowdScenario
