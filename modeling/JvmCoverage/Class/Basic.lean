import JvmCoverage.Class.Table
import Std.Data.ExtTreeSet
/-!
# Class stores

A `ClassStore` holds the coverage of one class: its line records, and in sampling mode a mask, a
bank of counters indexed by line number that is cheaper to count in. `ClassStore.foldMask` moves
the counts of the mask into the records.

A hit on a line, jump, switch or mask slot that is not there is ignored. The status of a method is
computed when it is first asked for and kept from then on, so it is meant to be asked once the
program has stopped.
-/

set_option autoImplicit false
set_option relaxedAutoImplicit false

namespace JvmCoverage

open Std (ExtTreeMap ExtTreeSet)

/-- The coverage of one class. -/
structure ClassStore where
  name : String
  table : LineTable := .empty
  /-- The highest line number for which a record was ever made. -/
  maxLine : UInt32 := 0
  /-- Every method signature that was recorded or asked about. -/
  signatures : ExtTreeSet String := ∅
  /-- The method statuses that were asked for. -/
  verdicts : ExtTreeMap String Status := ∅
  /-- The line counters of sampling mode. -/
  mask : Option CounterBank := none
  deriving Inhabited

/-- The tally of the lines of a method among records that are visited in some order. -/
def StatusTally.ofVisit (signature : String) (visited : List LineRecord) : StatusTally :=
  (visited.filter (·.signature = signature)).foldl (fun tally record ↦ tally.note record.status) {}

namespace ClassStore

def isDense (store : ClassStore) : Bool := store.table.isDense

def hasMask (store : ClassStore) : Bool := store.mask.isSome

def line? (store : ClassStore) (line : UInt32) : Option LineRecord := store.table.find? line

def containsLine (store : ClassStore) (line : UInt32) : Bool := store.table.contains line

/-- The records, by ascending line number. -/
def records (store : ClassStore) : List LineRecord := store.table.records

def lineCount (store : ClassStore) : Nat := store.records.length

def lineNumbers (store : ClassStore) : List UInt32 := store.records.map LineRecord.line

/-- The methods that own a line, in ascending order. -/
def methodSignatures (store : ClassStore) : List String :=
  (ExtTreeSet.ofList (store.records.map LineRecord.signature)).toList

/-- Makes a record for `line` owned by `signature`; a record that is there keeps its owner. -/
def ensureLine (store : ClassStore) (line : UInt32) (signature : String) : ClassStore :=
  { store with
    table := store.table.alter line fun found ↦ some (found.getD { line, signature })
    maxLine := max store.maxLine line
    signatures := store.signatures.insert signature }

/-- Applies `f` to the record of `line`, if there is one. -/
def modifyLine (store : ClassStore) (line : UInt32) (f : LineRecord → LineRecord) : ClassStore :=
  { store with table := store.table.modify line f }

/-- Changes the structure of the record of `line`; a line without record changes nothing. -/
def restructureLine (store : ClassStore) (line : UInt32)
    (f : LineRecord → Option LineRecord) : ClassStore :=
  if store.containsLine line then { store with table := store.table.alter line (·.bind f) }
  else store

def removeLine (store : ClassStore) (line : UInt32) : ClassStore :=
  store.restructureLine line fun _ ↦ none

def dropLastJump (store : ClassStore) (line : UInt32) : ClassStore :=
  store.restructureLine line fun record ↦ some record.dropLastJump

def addJump (store : ClassStore) (line id : UInt32) : ClassStore :=
  store.restructureLine line fun record ↦ some (record.addJump id)

def addSwitch (store : ClassStore) (line id : UInt32) (keys : CaseKeys) : ClassStore :=
  store.restructureLine line fun record ↦ some (record.addSwitch id keys)

/-- Counts one execution of `line`. -/
def hitLine (store : ClassStore) (line : UInt32) : ClassStore :=
  store.modifyLine line LineRecord.hit

/-- Counts an outcome of jump `id` of `line`. -/
def hitJump (store : ClassStore) (line id : UInt32) (taken : Bool) : ClassStore :=
  store.modifyLine line (·.hitJump id taken)

/-- Counts a dispatch of switch `id` of `line`. -/
def hitSwitch (store : ClassStore) (line id : UInt32) (key : Int32) : ClassStore :=
  store.modifyLine line (·.hitSwitch id key)

/-- Gives the class a mask for the lines up to `maxLine`, but not past those of a class file. -/
def openMask (store : ClassStore) (maxLine : UInt32) : ClassStore :=
  { store with mask := some (.zeros ((min maxLine highestLineNumber).toNat + 1)) }

/-- Counts one execution of `line` in the mask. -/
def hitMask (store : ClassStore) (line : UInt32) : ClassStore :=
  { store with mask := store.mask.map (·.hit line.toNat) }

/-- Adds the counts of a mask to the records of their lines. -/
def addMask (store : ClassStore) (mask : CounterBank) : ClassStore :=
  { store with
    table := store.table.mapKeyed fun line record ↦ record.addHits (mask.get line.toNat) }

/-- Moves the counts of the mask into the records; a count without a record is lost. -/
def foldMask (store : ClassStore) : ClassStore :=
  match store.mask with
  | some mask => { store.addMask mask with mask := none }
  | none => store

/-- Makes the line table dense, unless it is or a line is past those of a class file. -/
def densify (store : ClassStore) : ClassStore :=
  match store.table with
  | .sparse lines =>
    if store.maxLine ≤ highestLineNumber then { store with table := .ofMap lines store.maxLine }
    else store
  | .dense _ => store

/-- The status of a method, with the store that remembers it. -/
def methodStatus (store : ClassStore) (signature : String) : Status × ClassStore :=
  match store.verdicts[signature]? with
  | some status => (status, store)
  | none =>
    let status := (StatusTally.ofVisit signature store.records).verdict
    (status, { store with
      signatures := store.signatures.insert signature
      verdicts := store.verdicts.insert signature status })

end ClassStore

end JvmCoverage
