import CrowdScenario.Bytes

/-!
# Kinds of simulation (`SPEC_FULL.md`, section 4.5)

The first byte of a document. Zero is no kind, so that a zeroed buffer is not a document.
-/

namespace CrowdScenario

inductive Simulation where
  | flow
  | escape
deriving DecidableEq

namespace Simulation

def all : List Simulation := [flow, escape]

def code : Simulation → Byte
  | flow => 1
  | escape => 2

def name : Simulation → String
  | flow => "flow"
  | escape => "escape"

def ofCode? (c : Byte) : Option Simulation := all.find? fun s => s.code = c

def ofName? (n : String) : Option Simulation := all.find? fun s => s.name = n

theorem ofCode?_code (s : Simulation) : ofCode? s.code = some s := by
  cases s <;> decide

theorem code_of_ofCode? {c : Byte} {s : Simulation} (h : ofCode? c = some s) : s.code = c := by
  have h1 := List.find?_some h
  simpa using h1

end Simulation

end CrowdScenario
