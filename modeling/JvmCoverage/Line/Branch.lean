import JvmCoverage.Counter
import JvmCoverage.Line.CaseKeys
/-!
# Branch records

A `JumpRecord` counts the two outcomes of a conditional jump, a `SwitchRecord` counts the arms of a
switch and its default. Both carry an id that is unique on their line. `branchSlot` finds the
position of an id in a row of branches, and `tally` sums a count over the row.
-/

set_option autoImplicit false
set_option relaxedAutoImplicit false

namespace JvmCoverage

/-- The position of the branch with the given id. Ids are usually positions, so the position that
equals the id is tried before the row is searched. -/
def branchSlot {α : Type} (idOf : α → UInt32) (branches : Array α) (id : UInt32) : Option Nat :=
  if branches[id.toNat]?.any (idOf · = id) then some id.toNat
  else branches.findIdx? (idOf · = id)

/-- The sum of what `count` says of the branches of a row. -/
def tally {α : Type} (count : α → Nat) (branches : Array α) : Nat :=
  branches.toList.foldr (fun branch total ↦ count branch + total) 0

/-- The outcome counters of one conditional jump. -/
structure JumpRecord where
  id : UInt32
  taken : Counter := {}
  fallen : Counter := {}
  deriving DecidableEq, Repr

namespace JumpRecord

/-- Counts one outcome: the jump was taken or fell through. -/
def hit (jump : JumpRecord) (wasTaken : Bool) : JumpRecord :=
  if wasTaken then { jump with taken := jump.taken.hit }
  else { jump with fallen := jump.fallen.hit }

def anyHit (jump : JumpRecord) : Bool := jump.taken.isHit || jump.fallen.isHit

/-- Both outcomes were seen. -/
def allHit (jump : JumpRecord) : Bool := jump.taken.isHit && jump.fallen.isHit

def outcomesHit (jump : JumpRecord) : Nat := jump.taken.isHit.toNat + jump.fallen.isHit.toNat

/-- Adds the counts of `other`; the id stays. -/
def absorb (jump other : JumpRecord) : JumpRecord :=
  { jump with
    taken := jump.taken.add other.taken.value
    fallen := jump.fallen.add other.fallen.value }

end JumpRecord

/-- The arm counters of one switch. -/
structure SwitchRecord where
  id : UInt32
  keys : CaseKeys
  /-- Dispatches that no key matched. -/
  unmatched : Counter := {}
  arms : CounterBank
  deriving DecidableEq, Repr

namespace SwitchRecord

/-- A switch that was never dispatched, with one counter per arm of `keys`. -/
def fresh (id : UInt32) (keys : CaseKeys) : SwitchRecord :=
  { id, keys, arms := .zeros keys.arity }

/-- Counts one dispatch on `key`. -/
def hit (switch : SwitchRecord) (key : Int32) : SwitchRecord :=
  match switch.keys.arm? key with
  | some arm => { switch with arms := switch.arms.hit arm }
  | none => { switch with unmatched := switch.unmatched.hit }

def anyHit (switch : SwitchRecord) : Bool := switch.unmatched.isHit || switch.arms.anyHit

/-- Every arm was taken, the default included. -/
def allHit (switch : SwitchRecord) : Bool := switch.unmatched.isHit && switch.arms.allHit

def outcomesHit (switch : SwitchRecord) : Nat :=
  switch.unmatched.isHit.toNat + switch.arms.hitCount

/-- One outcome per arm and one for the default. -/
def outcomes (switch : SwitchRecord) : Nat := switch.arms.size + 1

/-- Adds the counts of `other`; id and keys stay. -/
def absorb (switch other : SwitchRecord) : SwitchRecord :=
  { switch with
    unmatched := switch.unmatched.add other.unmatched.value
    arms := switch.arms.addAll other.arms }

end SwitchRecord

end JvmCoverage
