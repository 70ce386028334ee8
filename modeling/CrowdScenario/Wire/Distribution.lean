import CrowdScenario.Binary64

/-!
# Distributions (`SPEC_FULL.md`, section 4.2)

A random parameter is given by the kind of its distribution and two numbers, whose names depend on
the kind.
-/

namespace CrowdScenario

inductive DistributionKind where
  | uniform
  | normal
  | timeInfinite
deriving DecidableEq

namespace DistributionKind

def all : List DistributionKind := [uniform, normal, timeInfinite]

def code : DistributionKind → Byte
  | uniform => 1
  | normal => 2
  | timeInfinite => 3

def name : DistributionKind → String
  | uniform => "uniform"
  | normal => "normal"
  | timeInfinite => "time_infinite"

def firstName : DistributionKind → String
  | uniform => "from"
  | normal => "mean"
  | timeInfinite => "avg_rate"

def secondName : DistributionKind → String
  | uniform => "to"
  | normal => "std_deviation"
  | timeInfinite => "rate_deviation"

def ofCode? (c : Byte) : Option DistributionKind := all.find? fun k => k.code = c

def ofName? (n : String) : Option DistributionKind := all.find? fun k => k.name = n

theorem ofCode?_code (k : DistributionKind) : ofCode? k.code = some k := by
  cases k <;> decide

theorem code_of_ofCode? {c : Byte} {k : DistributionKind} (h : ofCode? c = some k) :
    k.code = c := by
  have h1 := List.find?_some h
  simpa using h1

end DistributionKind

/-- A random parameter with its numbers in the order in which they are written. -/
structure Distribution where
  kind : DistributionKind
  first : Binary64
  second : Binary64
deriving DecidableEq

namespace Distribution

def toBytes (d : Distribution) : Bytes := d.kind.code :: (d.first.toBytes ++ d.second.toBytes)

@[simp] theorem length_toBytes (d : Distribution) : d.toBytes.length = 17 := by simp [toBytes]

end Distribution

end CrowdScenario
