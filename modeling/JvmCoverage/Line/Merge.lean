import JvmCoverage.Error
import JvmCoverage.Line.Basic
/-!
# Merging line records

Two records of one line can be merged when they declare the same branches: the same jump ids, and
the same switch ids with the same keys, in the same order. `LineRecord.shapeFault?` finds the first
difference and `LineRecord.merge` adds the counters when there is none.
-/

set_option autoImplicit false
set_option relaxedAutoImplicit false

namespace JvmCoverage.LineRecord

/-- The first pair of jumps with different ids. -/
def jumpFault? (ours theirs : LineRecord) : Option ShapeFault :=
  (ours.jumps.toList.zip theirs.jumps.toList).findSome? fun (our, their) ↦
    if our.id = their.id then none else some (.jumpId our.id their.id)

/-- The first pair of switches with different ids or keys. -/
def switchFault? (ours theirs : LineRecord) : Option ShapeFault :=
  (ours.switches.toList.zip theirs.switches.toList).findSome? fun (our, their) ↦
    if our.id = their.id ∧ our.keys = their.keys then none else some (.switchKeys our.id)

/-- The first difference in branch structure: jumps before switches, numbers before ids. -/
def shapeFault? (ours theirs : LineRecord) : Option ShapeFault :=
  if ours.jumps.size ≠ theirs.jumps.size then
    some (.jumpCount ours.jumps.size theirs.jumps.size)
  else
    (jumpFault? ours theirs).or <|
      if ours.switches.size ≠ theirs.switches.size then
        some (.switchCount ours.switches.size theirs.switches.size)
      else switchFault? ours theirs

/-- Adds the counters of a record of the same shape. -/
def absorb (ours theirs : LineRecord) : LineRecord :=
  { ours with
    hits := ours.hits.add theirs.hits.value
    jumps := ours.jumps.mapIdx fun slot jump ↦ theirs.jumps[slot]?.elim jump jump.absorb
    switches := ours.switches.mapIdx fun slot switch ↦
      theirs.switches[slot]?.elim switch switch.absorb }

/-- Adds the counters of `theirs` to `ours`, or says how their shapes differ. -/
def merge (ours theirs : LineRecord) : Except Failure LineRecord :=
  match shapeFault? ours theirs with
  | some fault => .error (.shapeMismatch ours.line fault)
  | none => .ok (absorb ours theirs)

end JvmCoverage.LineRecord
