import CrowdScenario.Description
import CrowdScenario.Failure
import CrowdScenario.Settings
import CrowdScenario.Wire.Decoder

/-!
# Failure reports (`SPEC_FULL.md`, section 7)

A command that fails reports what it was doing and why that failed, with the causes behind the
cause. The lines of a message stay together by their indentation.
-/

namespace CrowdScenario

/-! ### Causes

The messages of a failure and of what caused it, the nearest first. -/

def IngestError.causes (e : IngestError) : List String :=
  match e with
  | .unreadable _ cause => [e.message, cause.message]
  | .malformed .. | .missingRoot _ => [e.message]

def CompileError.causes (e : CompileError) : List String :=
  match e with
  | .encode _ cause => [e.message, cause.message]
  | .ingest _ cause => e.message :: cause.causes
  | _ => [e.message]

def SettingsError.causes (e : SettingsError) : List String :=
  match e with
  | .unreadable _ cause => [e.message, cause.message]
  | .malformed => [e.message]

def DescriptionError.causes (e : DescriptionError) : List String :=
  match e with
  | .unreadable _ cause => [e.message, cause.message]
  | .notJson | .notAnObject _ => [e.message]

/-- What failed, and the causes, the nearest first. -/
structure Report where
  context : String
  causes : List String
deriving DecidableEq

namespace Report

def indented (first other message : String) : String :=
  let lines := (Text.parts '\n' message.toList).map String.ofList
  first ++ ("\n" ++ other).intercalate lines

/-- The number of a cause, as wide as that of any short list. -/
def numbered (i : Nat) : String :=
  let digits := toString i
  String.ofList (List.replicate (5 - digits.length) ' ') ++ digits ++ ": "

def listed (i : Nat) : List String → String
  | [] => ""
  | c :: cs => "\n" ++ indented (numbered i) "       " c ++ listed (i + 1) cs

/-- The causes under a heading; only several causes are numbered. -/
def causesText : List String → String
  | [] => ""
  | [c] => "\n\nCaused by:\n" ++ indented "    " "    " c
  | cs => "\n\nCaused by:" ++ listed 0 cs

def text (r : Report) : String := "Error: " ++ r.context ++ causesText r.causes ++ "\n"

end Report

inductive CommandError where
  | settings (path : String) (cause : SettingsError)
  | description (path : String) (cause : DescriptionError)
  | compilation (path : String) (cause : CompileError)
  | unwritable (path : String) (cause : FileError)
  | unreadable (path : String) (cause : FileError)
  | undecodable (path : String) (cause : DecodeError)
deriving DecidableEq

namespace CommandError

def report : CommandError → Report
  | settings path cause => ⟨s!"Failed to load settings from {path}", cause.causes⟩
  | description path cause => ⟨s!"Failed to load description {path}", cause.causes⟩
  | compilation path cause => ⟨s!"Failed to compile {path}", cause.causes⟩
  | unwritable path cause => ⟨s!"Failed to write {path}", [cause.message]⟩
  | unreadable path cause => ⟨s!"Failed to read {path}", [cause.message]⟩
  | undecodable path cause => ⟨s!"Failed to decode {path}", [cause.message]⟩

end CommandError

end CrowdScenario
