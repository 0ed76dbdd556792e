import JvmCoverage.Line.Basic
import Std.Data.ExtTreeMap
/-!
# Line tables

The lines of a class are kept in a `LineTable` with two representations: `sparse`, a map from line
numbers, while the class changes, and `dense`, an array with a slot per line number, for repeated
look-ups. `LineTable.find?` is what both have in common. Changing a record keeps the
representation; adding or removing one (`LineTable.alter`) rebuilds the map.
-/

set_option autoImplicit false
set_option relaxedAutoImplicit false

namespace JvmCoverage

open Std (ExtTreeMap)

/-- The records of a class by line number. -/
inductive LineTable
  | sparse (lines : ExtTreeMap UInt32 LineRecord)
  | dense (slots : Array (Option LineRecord))

namespace LineTable

def empty : LineTable := .sparse ∅

instance : Inhabited LineTable := ⟨empty⟩

def isDense : LineTable → Bool
  | sparse _ => false
  | dense _ => true

def find? (table : LineTable) (line : UInt32) : Option LineRecord :=
  match table with
  | sparse lines => lines[line]?
  | dense slots => slots[line.toNat]?.join

def contains (table : LineTable) (line : UInt32) : Bool := (table.find? line).isSome

/-- The records in the order of their keys. -/
def records : LineTable → List LineRecord
  | sparse lines => lines.toList.map Prod.snd
  | dense slots => slots.toList.filterMap id

/-- The map of a table; the records of a dense one are filed under their own line numbers. -/
def toMap : LineTable → ExtTreeMap UInt32 LineRecord
  | sparse lines => lines
  | dense slots => .ofList ((slots.toList.filterMap id).map fun record ↦ (record.line, record))

/-- The sparse form of a table. -/
def rebuild (table : LineTable) : LineTable := .sparse table.toMap

/-- Applies `f` to the record at `line`, if there is one. -/
def modify (table : LineTable) (line : UInt32) (f : LineRecord → LineRecord) : LineTable :=
  match table with
  | sparse lines => .sparse (lines.modify line f)
  | dense slots => .dense (slots.modify line.toNat (Option.map f))

/-- Applies `f` to every record and the number it is filed under. -/
def mapKeyed (table : LineTable) (f : UInt32 → LineRecord → LineRecord) : LineTable :=
  match table with
  | sparse lines => .sparse (lines.map f)
  | dense slots => .dense (slots.mapIdx fun index slot ↦ slot.map (f (UInt32.ofNat index)))

/-- Adds, changes or removes the record at `line`; the result is sparse. -/
def alter (table : LineTable) (line : UInt32) (f : Option LineRecord → Option LineRecord) :
    LineTable :=
  .sparse (table.toMap.alter line f)

/-- A table with the slots `0` to `maxLine`. -/
def ofMap (lines : ExtTreeMap UInt32 LineRecord) (maxLine : UInt32) : LineTable :=
  .dense (Array.ofFn fun slot : Fin (maxLine.toNat + 1) ↦ lines[UInt32.ofNat slot]?)

end LineTable

end JvmCoverage
