import CrowdScenario.Command.Basic
import CrowdScenario.Command.Report
import CrowdScenario.Compilation
import CrowdScenario.Scene.Extraction
import CrowdScenario.Schema.Standard
import CrowdScenario.Wire.JsonForm
import CrowdScenario.Wire.Listing

/-!
# Outcomes of commands (`SPEC_FULL.md`, section 13)

A command reads files and delivers bytes, to standard output or into one file. It either delivers
all of them or fails, delivers nothing and reports why.

Nothing is logged here: lines of a log, which tell the time, are no part of an outcome, although a
program may write them where it writes its reports. Nor is there a wording for the usage, which is
told by whoever reads the arguments.
-/

namespace CrowdScenario

structure Delivery where
  output : Bytes
  /-- The path of a file and its content. -/
  file? : Option (String × Bytes)
deriving DecidableEq

namespace Delivery

def ofBytes (path? : Option String) (bytes : Bytes) : Delivery :=
  match path? with
  | some path => ⟨[], some (path, bytes)⟩
  | none => ⟨bytes, none⟩

def ofText (s : String) : Delivery := ⟨Bytes.ofText s, none⟩

end Delivery

/-- How a command ends: the exit status, what it prints, and the report if it fails. -/
structure Outcome where
  status : Nat
  output : Bytes
  errors : String
deriving DecidableEq

namespace Outcome

def success (output : Bytes) : Outcome := ⟨0, output, ""⟩

def failure (e : CommandError) : Outcome := ⟨1, [], e.report.text⟩

def misuse : Outcome := ⟨2, [], ""⟩

end Outcome

namespace Command

def settingsVariable : String := "CROWD_COMPILER_SETTINGS_PATH"

/-- The settings in the file that the command names, which must hold some, or else the preferred
ones. -/
def settings (read : FileReader) (preferred? named? : Option String) :
    Except CommandError Settings :=
  match named? with
  | some path => (Settings.ofFile read path).mapError (.settings path)
  | none => .ok (.preferred read preferred?)

variable [Json.DoubleReader]

def inputs (read : FileReader) (preferred? named? : Option String) (path : String) :
    Except CommandError (Settings × Description) := do
  let s ← settings read preferred? named?
  let d ← (Description.ofFile read path).mapError (.description path)
  return (s, d)

def compileFile (read : FileReader) (preferred? named? : Option String) (path : String) :
    Except CommandError Compiled := do
  let (s, d) ← inputs read preferred? named? path
  (CrowdScenario.compile s .standard (Scene.ofFiles read) d).mapError (.compilation path)

def checkLine (path : String) (c : Compiled) : String :=
  s!"{path}: {c.recordCount} records, {c.bytes.length} bytes, digest {c.digest.toHex}\n"

def decodeFile (read : FileReader) (path : String) : Except CommandError Document := do
  let bytes ← (read path).mapError (.unreadable path)
  (Document.decode bytes).mapError (.undecodable path)

def inspection (asJson : Bool) (d : Document) : String :=
  if asJson then d.toJson.spread 0 ++ "\n" else d.listing

def perform (read : FileReader) (preferred? : Option String) :
    Command → Except CommandError Delivery
  | compile path output? named? =>
    (compileFile read preferred? named? path).map fun c => .ofBytes output? c.bytes
  | check path named? =>
    (compileFile read preferred? named? path).map fun c => .ofText (checkLine path c)
  | inspect path asJson => (decodeFile read path).map fun d => .ofText (inspection asJson d)

def scenePaths (read : FileReader) (s : Settings) (d : Description) : List String :=
  (Compilation.run s .standard (Scene.ofFiles read) d).2.ingestions

/-- The files that a command reads. Which ones they are depends on what is in those before. -/
def sources (read : FileReader) (preferred? : Option String) : Command → List String
  | compile path _ named? | check path named? =>
    (named? <|> preferred?).toList ++ [path] ++
      match inputs read preferred? named? path with
      | .ok (s, d) => scenePaths read s d
      | .error _ => []
  | inspect path _ => [path]

/-- The outcome of a command in a directory, and the directory afterwards. -/
def run (d : Directory) (preferred? : Option String) (c : Command) : Outcome × Directory :=
  match c.perform d.read preferred? with
  | .error e => (.failure e, d)
  | .ok delivery =>
    match delivery.file? with
    | none => (.success delivery.output, d)
    | some (path, content) =>
      match d.write path content with
      | .error e => (.failure (.unwritable path e), d)
      | .ok d => (.success delivery.output, d)

end Command

/-- The outcome of a command line in a directory, and the directory afterwards. -/
def runArguments [Json.DoubleReader] (d : Directory) (preferred? : Option String)
    (arguments : List String) : Outcome × Directory :=
  match Command.ofArguments? arguments with
  | none => (.misuse, d)
  | some c => c.run d preferred?

end CrowdScenario
