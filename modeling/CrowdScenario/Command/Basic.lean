import CrowdScenario.Command.Arguments

/-!
# Commands (`SPEC_FULL.md`, section 13)

A command is named by the first argument; the others say what it works on.
-/

namespace CrowdScenario

/-- What the command line can ask for. Paths lead to files. -/
inductive Command where
  /-- The document of a description, into a file or to standard output. -/
  | compile (description : String) (output? settings? : Option String)
  /-- The size and the digest of the document of a description. -/
  | check (description : String) (settings? : Option String)
  /-- What a document says, as lines or as JSON. -/
  | inspect (document : String) (asJson : Bool)
deriving DecidableEq

namespace Command

def compileGrammar : ArgumentGrammar := ⟨["output", "settings"], [('o', "output")], []⟩

def checkGrammar : ArgumentGrammar := ⟨["settings"], [], []⟩

def inspectGrammar : ArgumentGrammar := ⟨[], [], ["json"]⟩

def subject? (a : Arguments) : Option String :=
  match a.positional with
  | [word] => some word
  | _ => none

def ofArguments? : List String → Option Command
  | "compile" :: arguments => do
    let a ← compileGrammar.read? arguments
    return .compile (← subject? a) (a.value? "output") (a.value? "settings")
  | "check" :: arguments => do
    let a ← checkGrammar.read? arguments
    return .check (← subject? a) (a.value? "settings")
  | "inspect" :: arguments => do
    let a ← inspectGrammar.read? arguments
    return .inspect (← subject? a) (a.hasFlag "json")
  | _ => none

end Command

end CrowdScenario
