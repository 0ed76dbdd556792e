import JvmCoverage.Line.Layout
import JvmCoverage.Line.Merge
/-!
# Changes of line records

A record is only changed through the reference that a class store gives out. `RecordOp` lists those
changes, `RecordOp.apply` says what each does to the record and `RecordOp.answer` what the caller
gets back. `LineRecord.Reachable` says that a record was made by changes, and
`SwitchRecord.Reachable` says so of one of its switches.
-/

set_option autoImplicit false
set_option relaxedAutoImplicit false

namespace JvmCoverage

/-- A change of a line record through a reference to it. -/
inductive RecordOp
  | hit
  | hitJump (id : UInt32) (taken : Bool)
  | hitSwitch (id : UInt32) (key : Int32)
  | addHits (count : UInt32)
  | addJump (id : UInt32)
  | addSwitch (id : UInt32) (keys : CaseKeys)
  | dropLastJump
  | merge (theirs : LineRecord)

namespace RecordOp

/-- A merge that fails leaves the record as it is. -/
def apply : RecordOp → LineRecord → LineRecord
  | hit, record => record.hit
  | hitJump id taken, record => record.hitJump id taken
  | hitSwitch id key, record => record.hitSwitch id key
  | addHits count, record => record.addHits count
  | addJump id, record => record.addJump id
  | addSwitch id keys, record => record.addSwitch id keys
  | dropLastJump, record => record.dropLastJump
  | merge theirs, record => (record.merge theirs).toOption.getD record

/-- What the caller of a change gets back. -/
inductive Answer
  | done
  | dropped (jump? : Option JumpRecord)
  | merged (outcome : Except Failure Unit)

def answer : RecordOp → LineRecord → Answer
  | dropLastJump, record => .dropped record.jumps.back?
  | merge theirs, record => .merged ((record.merge theirs).map fun _ ↦ ())
  | _, _ => .done

def applyAll (edits : List RecordOp) (record : LineRecord) : LineRecord :=
  edits.foldl (fun record edit ↦ edit.apply record) record

def answers : List RecordOp → LineRecord → List Answer
  | [], _ => []
  | edit :: rest, record => edit.answer record :: answers rest (edit.apply record)

end RecordOp

/-! ### Reachable records -/

/-- The record starts empty or is read from a report, and was changed since. What was merged into it
may be any record. -/
inductive LineRecord.Reachable : LineRecord → Prop
  | fresh (line : UInt32) (signature : String) : Reachable { line, signature }
  | loaded {signature : String} {bytes rest : List UInt8} {record : LineRecord}
    (hdecode : LineRecord.decode signature bytes = .ok (record, rest)) : Reachable record
  | operated {record : LineRecord} (edit : RecordOp) (hrecord : Reachable record) :
    Reachable (edit.apply record)

theorem LineRecord.Reachable.applyAll {record : LineRecord} (hrecord : record.Reachable)
    (edits : List RecordOp) : (RecordOp.applyAll edits record).Reachable := by
  induction edits generalizing record with
  | nil => exact hrecord
  | cons edit rest ih => exact ih (.operated edit hrecord)

/-- The switch is fresh or read from a report, and was dispatched and merged since. What was merged
into it may be any switch. -/
inductive SwitchRecord.Reachable : SwitchRecord → Prop
  | fresh (id : UInt32) (keys : CaseKeys) : Reachable (.fresh id keys)
  | loaded {id : UInt32} {bytes rest : List UInt8} {switch : SwitchRecord}
    (hdecode : SwitchRecord.decode id bytes = .ok (switch, rest)) : Reachable switch
  | hit {switch : SwitchRecord} (key : Int32) (hswitch : Reachable switch) :
    Reachable (switch.hit key)
  | merged {switch : SwitchRecord} (theirs : SwitchRecord) (hswitch : Reachable switch) :
    Reachable (switch.absorb theirs)

end JvmCoverage
