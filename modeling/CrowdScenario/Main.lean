import CrowdScenario.Command.Outcome

/-!
# The command line (`SPEC_FULL.md`, section 13)

Reads the files that a command asks for and delivers what it makes of them. Doubles in JSON are read
with correct rounding.
-/

namespace CrowdScenario.Shell

/-- The number of a system error, which is reported with either sign. -/
def systemNumber (code : UInt32) : Nat := code.toInt32.toInt.natAbs

def fileError (e : IO.Error) : FileError :=
  match e with
  | .noFileOrDirectory .. => .notFound
  | .inappropriateType _ code _ =>
    if systemNumber code = 20 then .notDirectory else .isDirectory
  | .invalidArgument _ code _ =>
    if systemNumber code = 36 then .nameTooLong else .other (toString e)
  | _ => .other (toString e)

def attempt {α : Type} (action : IO α) : IO (Except FileError α) := do
  match ← action.toBaseIO with
  | .ok a => return .ok a
  | .error e => return .error (fileError e)

abbrev Snapshot := List (String × Except FileError Bytes)

def Snapshot.reader (files : Snapshot) : FileReader := fun path =>
  (files.lookup path).getD (.error .notFound)

def readFile (path : String) : IO (Except FileError Bytes) :=
  attempt do return (← IO.FS.readBinFile path).toList

/-- Reads what a command asks for until it asks for nothing new. -/
partial def gather (c : Command) (preferred? : Option String) (files : Snapshot) : IO Snapshot := do
  match (c.sources files.reader preferred?).find? fun path => (files.lookup path).isNone with
  | none => return files
  | some path => gather c preferred? ((path, ← readFile path) :: files)

/-- The outcome of a command; what it delivers to a file is written there. -/
def perform (c : Command) (preferred? : Option String) : IO Outcome := do
  let files ← gather c preferred? []
  match c.perform files.reader preferred? with
  | .error e => return .failure e
  | .ok delivery =>
    match delivery.file? with
    | none => return .success delivery.output
    | some (path, content) =>
      match ← attempt (IO.FS.writeBinFile path ⟨content.toArray⟩) with
      | .error e => return .failure (.unwritable path e)
      | .ok () => return .success delivery.output

/-- Readers of arguments have words of their own for what is wrong with a command line; these stand for
them. -/
def usage : String :=
  "usage: compile DESCRIPTION [-o FILE] [--settings FILE]\n"
    ++ "       check DESCRIPTION [--settings FILE]\n"
    ++ "       inspect DOCUMENT [--json]\n"

end CrowdScenario.Shell

def main (arguments : List String) : IO UInt32 := do
  let preferred? ← IO.getEnv CrowdScenario.Command.settingsVariable
  let (outcome, usage) ← match CrowdScenario.Command.ofArguments? arguments with
    | none => pure (.misuse, CrowdScenario.Shell.usage)
    | some c => pure (← CrowdScenario.Shell.perform c preferred?, "")
  (← IO.getStdout).write ⟨outcome.output.toArray⟩
  (← IO.getStderr).putStr (outcome.errors ++ usage)
  return UInt32.ofNat outcome.status
