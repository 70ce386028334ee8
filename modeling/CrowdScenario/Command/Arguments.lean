/-!
# Command line arguments (`SPEC_FULL.md`, section 13)

Arguments are positional words, options with a value and flags, in any order. An option has a long
name and may have a letter; its value is attached to it or is the next argument. After a double dash
all arguments are positional.
-/

namespace CrowdScenario

structure ArgumentGrammar where
  /-- The long names of the options that take a value. -/
  options : List String
  /-- Letters for some of these options. -/
  letters : List (Char × String)
  flags : List String

structure Arguments where
  positional : List String
  values : List (String × String)
  flags : List String
deriving DecidableEq

namespace Arguments

def empty : Arguments := ⟨[], [], []⟩

def value? (a : Arguments) (option : String) : Option String := a.values.lookup option

def hasFlag (a : Arguments) (flag : String) : Bool := flag ∈ a.flags

/-- With one more positional word; no word is empty. -/
def addPositional? (a : Arguments) (word : String) : Option Arguments :=
  if word = "" then none else some { a with positional := a.positional ++ [word] }

/-- With the value of an option; no value is empty, and no option is given twice. -/
def addValue? (a : Arguments) (option value : String) : Option Arguments :=
  if value = "" ∨ (a.value? option).isSome then none
  else some { a with values := a.values ++ [(option, value)] }

def addFlag? (a : Arguments) (flag : String) : Option Arguments :=
  if a.hasFlag flag then none else some { a with flags := a.flags ++ [flag] }

end Arguments

inductive ArgumentForm where
  /-- All arguments from here on are positional. -/
  | terminator
  | positional (word : String)
  | flag (name : String)
  | assignment (option value : String)
  /-- The value of the option is the next argument. -/
  | announcement (option : String)
  | unknown
deriving DecidableEq

namespace ArgumentGrammar

/-- The form of an argument after a double dash: a name, and perhaps a value after a sign of
equality. -/
def longForm (g : ArgumentGrammar) (body : List Char) : ArgumentForm :=
  let name := String.ofList (body.takeWhile (· ≠ '='))
  match body.dropWhile (· ≠ '=') with
  | [] =>
    if name ∈ g.options then .announcement name
    else if name ∈ g.flags then .flag name
    else .unknown
  | _ :: value => if name ∈ g.options then .assignment name (String.ofList value) else .unknown

/-- The form of an argument after a single dash: a letter, and perhaps a value, before which a sign
of equality may stand. -/
def shortForm (g : ArgumentGrammar) (letter : Char) (rest : List Char) : ArgumentForm :=
  match g.letters.lookup letter, rest with
  | none, _ => .unknown
  | some option, [] => .announcement option
  | some option, '=' :: value => .assignment option (String.ofList value)
  | some option, value => .assignment option (String.ofList value)

/-- The form of an argument. A dash alone is a word. -/
def form (g : ArgumentGrammar) (argument : String) : ArgumentForm :=
  match argument.toList with
  | ['-', '-'] => .terminator
  | '-' :: '-' :: body => g.longForm body
  | '-' :: letter :: rest => g.shortForm letter rest
  | _ => .positional argument

def isValue (argument : String) : Bool := argument.toList.head? ≠ some '-' ∨ argument = "-"

def readOnto? (g : ArgumentGrammar) (a : Arguments) : List String → Option Arguments
  | [] => some a
  | argument :: rest =>
    match g.form argument with
    | .terminator => rest.foldlM Arguments.addPositional? a
    | .positional word => (a.addPositional? word).bind fun a => g.readOnto? a rest
    | .flag name => (a.addFlag? name).bind fun a => g.readOnto? a rest
    | .assignment option value => (a.addValue? option value).bind fun a => g.readOnto? a rest
    | .announcement option =>
      match rest with
      | [] => none
      | value :: rest =>
        if isValue value then (a.addValue? option value).bind fun a => g.readOnto? a rest
        else none
    | .unknown => none

def read? (g : ArgumentGrammar) (arguments : List String) : Option Arguments :=
  g.readOnto? .empty arguments

end ArgumentGrammar

end CrowdScenario
