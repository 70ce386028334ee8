import CrowdScenario.Coercion
import CrowdScenario.Failure
import CrowdScenario.Location
import CrowdScenario.Settings
import CrowdScenario.Tree.Basic

/-!
# Sources of field values (`SPEC_FULL.md`, sections 4.1 and 4.2)

A field takes its value from the first source that has one: what the author wrote, then what its
distribution falls back to, then its own default. A source is an input or a reference. What comes
out of the sources is coerced to the kind of the field.
-/

namespace CrowdScenario

/-- What a compilation depends on besides the description and the schemas. -/
structure Context where
  settings : Settings
  /-- The directory of the description, if it comes from a file. -/
  directory? : Option String
  ingest : Ingestor

def Context.scenePath (ctx : Context) (file : String) : String :=
  match ctx.directory? with
  | some directory =>
    if ctx.settings.sceneBesideDescription then Location.join directory file else file
  | none => file

inductive Source where
  | given (input : Input)
  /-- What a reference leads to; a required one must lead somewhere. -/
  | reference (expression : String) (required : Bool)

def Source.ofAuthor (strict : Bool) (j : Json) : Source :=
  match (Input.json j).reference? with
  | some expression => reference expression strict
  | none => given (.json j)

/-- The source of a default. It may always lead nowhere, and a text is never a reference. -/
def Source.ofDefault (d : Default) : Source :=
  match d, d.literal? with
  | .reference expression, _ => reference expression false
  | _, some v => given (.value v)
  | _, none => given (.value (.text ""))

def Node.sources (n : Node) (strict : Bool) (f : Field) : List Source :=
  ((Json.supplied? n.members f.name).map (Source.ofAuthor strict)).toList
    ++ (n.fallback? f.name).toList.map Source.ofDefault
    ++ f.default?.toList.map Source.ofDefault

def invalidInput (path expected : String) (i : Input) : CompileError :=
  .invalidValue path expected i.describe

def chooseVariant (variants : List Variant) (path : String) (i : Input) :
    Except CompileError Value :=
  match i.name? with
  | none => .error (invalidInput path "enum name" i)
  | some name =>
    match variants.find? fun v => v.name = name with
    | some v => .ok (.choice v.name v.code)
    | none => .error (.unknownEnumValue name path)

def readInput {α : Type} (path expected : String) (read : Input → Option α) (make : α → Value)
    (i : Input) : Except CompileError Value :=
  match read i with
  | some a => .ok (make a)
  | none => .error (invalidInput path expected i)

/-- The value of a plain field from its input. Without an input numbers are zero, texts empty and
flags false; a choice needs one. -/
def coerce (kind : FieldKind) (path : String) (input? : Option Input) : Except CompileError Value :=
  match kind, input? with
  | .int, none => .ok (.int 0)
  | .int, some i => readInput path "integer" Input.int? .int i
  | .float, none => .ok (.float .zero)
  | .float, some i => readInput path "number" Input.float? .float i
  | .text, none => .ok (.text "")
  | .text, some i => readInput path "string" Input.text? .text i
  | .bool, none => .ok (.bool false)
  | .bool, some i => readInput path "boolean" Input.bool? .bool i
  | .choice _, none => .error (.missingField path)
  | .choice variants, some i => chooseVariant variants path i
  | _, _ => .error (.invalidValue path "scalar field" "nested section")

def sceneFileOf (path : String) (input? : Option Input) : Except CompileError String :=
  match input? with
  | none => .error (.missingField path)
  | some i =>
    match i.text? with
    | some file => .ok file
    | none => .error (invalidInput path "scene file path" i)

end CrowdScenario
