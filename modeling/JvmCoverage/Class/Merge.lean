import JvmCoverage.Class.Basic
import JvmCoverage.Line.Merge
/-!
# Merging class stores

Two stores of one class can be merged when every line that both hold has the same owner and the
same shape. A merge goes over the lines twice: `ClassStore.conflict?` looks at every line before
any counter moves, and `ClassStore.mergeRecords` then adds the records one by one, where each of
them is checked again. `ClassStore.mergeInPlace` gives the store as the merge left it, whether it
succeeded or not.
-/

set_option autoImplicit false
set_option relaxedAutoImplicit false

namespace JvmCoverage

namespace LineRecord

/-- Why the records of a line cannot be merged: another owner, or another shape. -/
def conflict? (ours theirs : LineRecord) : Option ShapeFault :=
  if ours.signature ≠ theirs.signature then some (.owner ours.signature theirs.signature)
  else shapeFault? ours theirs

end LineRecord

namespace ClassStore

/-- The first record of `theirs` that disagrees with the record that `ours` has of its line. -/
def lineConflict? (ours theirs : ClassStore) : Option Failure :=
  theirs.records.findSome? fun their ↦ do
    let our ← ours.line? their.line
    let fault ← our.conflict? their
    some (.shapeMismatch their.line fault)

/-- Why `theirs` cannot be merged into `ours`. -/
def conflict? (ours theirs : ClassStore) : Option Failure :=
  if ours.name ≠ theirs.name then some (.classMismatch ours.name theirs.name)
  else lineConflict? ours theirs

/-- Takes over the record of a line that the store does not have. -/
def adopt (store : ClassStore) (record : LineRecord) : ClassStore :=
  { store with
    table := store.table.alter record.line fun _ ↦ some record
    maxLine := max store.maxLine record.line
    signatures := store.signatures.insert record.signature }

/-- Adds the counters of one record. The map is rebuilt first, and a line that is new is taken over
with its owner. -/
def mergeRecord (store : ClassStore) (record : LineRecord) : ClassStore × Except Failure Unit :=
  let store := { store with table := store.table.rebuild }
  match store.line? record.line with
  | none => (store.adopt record, .ok ())
  | some ours =>
    match ours.merge record with
    | .ok merged => (store.modifyLine record.line fun _ ↦ merged, .ok ())
    | .error error => (store, .error error)

/-- Adds records in order until one cannot be added. -/
def mergeRecords (store : ClassStore) : List LineRecord → ClassStore × Except Failure Unit
  | [] => (store, .ok ())
  | record :: rest =>
    match store.mergeRecord record with
    | (store, .ok ()) => store.mergeRecords rest
    | (store, .error error) => (store, .error error)

/-- Adds the counts of the mask of `theirs`. The receiver keeps its own mask. -/
def mergeMask (ours theirs : ClassStore) : ClassStore :=
  match theirs.mask with
  | some mask => ours.addMask mask
  | none => ours

/-- Adds the coverage of `theirs`: the store as the merge left it, and what came of the merge. -/
def mergeInPlace (ours theirs : ClassStore) : ClassStore × Except Failure Unit :=
  match conflict? ours theirs with
  | some error => (ours, .error error)
  | none =>
    match ours.mergeRecords theirs.records with
    | (merged, .ok ()) => (merged.mergeMask theirs, .ok ())
    | (merged, .error error) => (merged, .error error)

/-- The store with the coverage of `theirs` added, or why it cannot be added. -/
def merge (ours theirs : ClassStore) : Except Failure ClassStore :=
  match ours.mergeInPlace theirs with
  | (merged, .ok ()) => .ok merged
  | (_, .error error) => .error error

end ClassStore

end JvmCoverage
