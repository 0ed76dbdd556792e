import JvmCoverage.Line.Branch
import JvmCoverage.Status
/-!
# Line records

A `LineRecord` holds what is counted on one source line: how often the line was executed, and the
outcomes of the jumps and switches that were declared on it. Declaring and dropping branches
happens while a class is instrumented; afterwards only the counters move.

`LineRecord.status` classifies the line and `LineRecord.outcomeCounts` counts its outcomes.
-/

set_option autoImplicit false
set_option relaxedAutoImplicit false

namespace JvmCoverage

/-- The highest line number that a class file can hold. -/
def highestLineNumber : UInt32 := 65535

/-- The coverage of one source line. -/
structure LineRecord where
  line : UInt32
  /-- The method that owns the line, its name followed by its descriptor. -/
  signature : String
  hits : Counter := {}
  jumps : Array JumpRecord := #[]
  switches : Array SwitchRecord := #[]
  deriving DecidableEq, Repr

/-- Outcomes of the branches of a line. -/
structure OutcomeCounts where
  covered : Nat
  total : Nat
  deriving DecidableEq, Repr

namespace LineRecord

def jumpSlot (record : LineRecord) (id : UInt32) : Option Nat :=
  branchSlot JumpRecord.id record.jumps id

def switchSlot (record : LineRecord) (id : UInt32) : Option Nat :=
  branchSlot SwitchRecord.id record.switches id

def jump? (record : LineRecord) (id : UInt32) : Option JumpRecord :=
  (record.jumpSlot id).bind (record.jumps[·]?)

def switch? (record : LineRecord) (id : UInt32) : Option SwitchRecord :=
  (record.switchSlot id).bind (record.switches[·]?)

/-- Counts one execution of the line. -/
def hit (record : LineRecord) : LineRecord := { record with hits := record.hits.hit }

/-- Counts an outcome of a jump; an unknown id is ignored. -/
def hitJump (record : LineRecord) (id : UInt32) (taken : Bool) : LineRecord :=
  match record.jumpSlot id with
  | some slot => { record with jumps := record.jumps.modify slot (·.hit taken) }
  | none => record

/-- Counts a dispatch of a switch; an unknown id is ignored. -/
def hitSwitch (record : LineRecord) (id : UInt32) (key : Int32) : LineRecord :=
  match record.switchSlot id with
  | some slot => { record with switches := record.switches.modify slot (·.hit key) }
  | none => record

/-- Adds executions that were counted elsewhere. -/
def addHits (record : LineRecord) (count : UInt32) : LineRecord :=
  { record with hits := record.hits.add count }

/-- Declares a jump; a second declaration of an id changes nothing. -/
def addJump (record : LineRecord) (id : UInt32) : LineRecord :=
  if (record.jump? id).isSome then record
  else { record with jumps := record.jumps.push { id } }

/-- Declares a switch; a second declaration of an id changes nothing. -/
def addSwitch (record : LineRecord) (id : UInt32) (keys : CaseKeys) : LineRecord :=
  if (record.switch? id).isSome then record
  else { record with switches := record.switches.push (.fresh id keys) }

/-- Drops the jump that was declared last, if there is one. -/
def dropLastJump (record : LineRecord) : LineRecord := { record with jumps := record.jumps.pop }

def anyBranchHit (record : LineRecord) : Bool :=
  record.jumps.any JumpRecord.anyHit || record.switches.any SwitchRecord.anyHit

def allBranchesHit (record : LineRecord) : Bool :=
  record.jumps.all JumpRecord.allHit && record.switches.all SwitchRecord.allHit

/-- A line without executions is partly covered when a branch on it was taken nevertheless. -/
def status (record : LineRecord) : Status :=
  if record.hits.isHit then if record.allBranchesHit then .covered else .partly
  else if record.anyBranchHit then .partly else .uncovered

/-- A jump has two outcomes, a switch one per arm and one for its default. -/
def outcomeCounts (record : LineRecord) : OutcomeCounts where
  covered := tally JumpRecord.outcomesHit record.jumps
    + tally SwitchRecord.outcomesHit record.switches
  total := 2 * record.jumps.size + tally SwitchRecord.outcomes record.switches

end LineRecord

end JvmCoverage
