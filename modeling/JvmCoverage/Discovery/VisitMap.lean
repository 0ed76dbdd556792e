/-!
# Visit maps

A `VisitMap` has a flag for each traced method of a class, set when the method is entered. Methods
are addressed by their position; an unknown one is ignored.
-/

set_option autoImplicit false
set_option relaxedAutoImplicit false

namespace JvmCoverage

/-- A method and its flag. -/
structure TracedMethod where
  name : String
  visited : Bool := false
  deriving DecidableEq, Repr, Inhabited

/-- Which methods of a class were entered. -/
structure VisitMap where
  className : String
  methods : Array TracedMethod
  deriving DecidableEq, Repr, Inhabited

namespace VisitMap

/-- A map in which no method was visited. -/
def ofNames (className : String) (names : List String) : VisitMap :=
  { className, methods := (names.map fun name ↦ { name }).toArray }

def size (visits : VisitMap) : Nat := visits.methods.size

def isEmpty (visits : VisitMap) : Bool := visits.methods.isEmpty

def visit (visits : VisitMap) (method : Nat) : VisitMap :=
  { visits with
    methods := visits.methods.modify method fun traced ↦ { traced with visited := true } }

def isVisited (visits : VisitMap) (method : Nat) : Bool :=
  visits.methods[method]?.any TracedMethod.visited

/-- The names of the visited methods, in the order of the methods. -/
def visitedNames (visits : VisitMap) : List String :=
  (visits.methods.toList.filter TracedMethod.visited).map TracedMethod.name

/-- Clears every flag. -/
def reset (visits : VisitMap) : VisitMap :=
  { visits with methods := visits.methods.map fun traced ↦ { traced with visited := false } }

end VisitMap

end JvmCoverage
