import JvmCoverage.Class.Basic
import JvmCoverage.Dictionary
import JvmCoverage.Field.Sink
import JvmCoverage.Line.Layout
/-!
# Layout of a class store

A class is written as the dictionary index of its name followed by its lines, grouped by owner:
owners in ascending order, and the lines of an owner by ascending number. `ClassStore.save` folds
the mask before it writes, and what it folded and interned stays so when writing fails.
`ClassStore.decode` reads a class back and refuses a line number that occurs twice.
-/

set_option autoImplicit false
set_option relaxedAutoImplicit false

namespace JvmCoverage

/-- What a class save leaves behind. -/
structure ClassSave where
  store : ClassStore
  dictionary : Dictionary
  sink : Sink
  outcome : Except Failure Unit

namespace ClassStore

/-- The records that a method owns, by ascending line number. -/
def recordsOf (store : ClassStore) (signature : String) : List LineRecord :=
  store.records.filter (·.signature = signature)

/-- One owner and its lines. -/
def groupFields (store : ClassStore) (signature : String) : List Field :=
  .text signature :: .count (store.recordsOf signature).length ::
    (store.recordsOf signature).flatMap LineRecord.fields

/-- The fields of a class whose name has the given index. -/
def fields (store : ClassStore) (index : UInt32) : List Field :=
  .int index :: .count store.methodSignatures.length ::
    store.methodSignatures.flatMap store.groupFields

/-- Writes a class after folding its mask and interning its name. -/
def save (store : ClassStore) (dictionary : Dictionary) (sink : Sink) : ClassSave :=
  let store := store.foldMask
  let (dictionary, index) := dictionary.intern store.name
  let (sink, outcome) := sink.writeAll (store.fields index)
  { store, dictionary, sink, outcome }

/-- Files a record that was read; its line must be new. -/
def fileRecord (store : ClassStore) (record : LineRecord) : Except Failure ClassStore :=
  if store.containsLine record.line then
    .error (.malformed (.repeatedLine record.line store.name))
  else
    .ok { store with
      table := store.table.alter record.line fun _ ↦ some record
      maxLine := max store.maxLine record.line }

/-- Reads one record owned by `signature` into the store. -/
def decodeRecord (signature : String) (store : ClassStore) : Decoder ClassStore := do
  let record ← LineRecord.decode signature
  StateT.lift (store.fileRecord record)

/-- Reads one owner and its lines into the store. -/
def decodeGroup (store : ClassStore) : Decoder ClassStore := do
  let signature ← Decoder.text
  let length ← Decoder.count
  Decoder.iterate (decodeRecord signature) length
    { store with signatures := store.signatures.insert signature }

/-- Reads a class, whose name is an index into the dictionary. -/
def decode (dictionary : Dictionary) : Decoder ClassStore := do
  let index ← Decoder.int
  match dictionary.get? index with
  | none => Decoder.fail (.unknownIndex index)
  | some name => Decoder.iterate decodeGroup (← Decoder.count) { name }

end ClassStore

end JvmCoverage
