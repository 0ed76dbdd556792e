import JvmCoverage.Discovery.VisitMap
import Std.Data.ExtTreeMap
/-!
# Test discovery

Which methods a test enters tells a runner which tests to repeat. A `Discovery` holds one visit map
per traced class, and maps that somebody made outside the registry; a `Handle` stands for one of
them. Tracing a class again gives the handle of its first map. `Discovery.endTest` reports and
clears what the registered maps have seen, and leaves the others alone.
-/

set_option autoImplicit false
set_option relaxedAutoImplicit false

namespace JvmCoverage

open Std (ExtTreeMap)

/-- The methods that one test entered, by class. A class that it did not enter has no entry. -/
structure Footprint where
  test : String := ""
  classes : ExtTreeMap String (List String) := ∅

namespace Footprint

def isEmpty (footprint : Footprint) : Bool := footprint.classes.isEmpty

def visited (footprint : Footprint) (className method : String) : Bool :=
  footprint.classes[className]?.any (·.contains method)

end Footprint

/-- A reference to a visit map. -/
inductive Handle
  /-- The map of a traced class. -/
  | traced (className : String)
  /-- The map at a position outside the registry. -/
  | loose (position : Nat)
  deriving DecidableEq, Repr

/-- All visit maps. -/
structure Discovery where
  traced : ExtTreeMap String VisitMap := ∅
  loose : Array VisitMap := #[]

namespace Discovery

def classCount (discovery : Discovery) : Nat := discovery.traced.size

def map? (discovery : Discovery) : Handle → Option VisitMap
  | .traced className => discovery.traced[className]?
  | .loose position => discovery.loose[position]?

def modify (discovery : Discovery) (handle : Handle) (f : VisitMap → VisitMap) : Discovery :=
  match handle with
  | .traced className => { discovery with traced := discovery.traced.modify className f }
  | .loose position => { discovery with loose := discovery.loose.modify position f }

/-- Registers a class; the methods only count when it was not registered before. -/
def trace (discovery : Discovery) (className : String) (methods : List String) :
    Discovery × Handle :=
  ({ discovery with
      traced := discovery.traced.alter className fun found ↦
        some (found.getD (.ofNames className methods)) },
    .traced className)

/-- Makes a map outside the registry. -/
def create (discovery : Discovery) (className : String) (methods : List String) :
    Discovery × Handle :=
  ({ discovery with loose := discovery.loose.push (.ofNames className methods) },
    .loose discovery.loose.size)

def visit (discovery : Discovery) (handle : Handle) (method : Nat) : Discovery :=
  discovery.modify handle (·.visit method)

def isVisited (discovery : Discovery) (handle : Handle) (method : Nat) : Bool :=
  (discovery.map? handle).any (·.isVisited method)

def reset (discovery : Discovery) (handle : Handle) : Discovery :=
  discovery.modify handle VisitMap.reset

/-- The visited names of a map, which is cleared. -/
def take (discovery : Discovery) (handle : Handle) : List String × Discovery :=
  (((discovery.map? handle).map VisitMap.visitedNames).getD [], discovery.reset handle)

/-- What the registered maps have seen since they were last cleared; they are cleared. -/
def endTest (discovery : Discovery) (test : String) : Footprint × Discovery :=
  ({ test
     classes := discovery.traced.filterMap fun _ visits ↦
       if visits.visitedNames.isEmpty then none else some visits.visitedNames },
    { discovery with traced := discovery.traced.map fun _ visits ↦ visits.reset })

end Discovery

end JvmCoverage
