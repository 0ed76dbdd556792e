import JvmCoverage.Class.Layout
import JvmCoverage.Report.Basic
/-!
# Layout of a report

A report is written as a magic number, the version of the format, the dictionary of its class
names, the number of its classes, and the classes by ascending name. The dictionary comes first, so
that a reader can resolve each class as it goes. A class is folded just before it is written;
`Report.save` gives back the report as the save left it, whether it succeeded or not.
-/

set_option autoImplicit false
set_option relaxedAutoImplicit false

namespace JvmCoverage

/-- What a report save leaves behind. -/
structure ReportSave where
  report : Report
  sink : Sink
  outcome : Except Failure Unit

namespace Report

/-- The first field of every report. -/
def magic : UInt32 := 0x4C435652

/-- The version of the format that is written and read. -/
def formatVersion : UInt32 := 1

/-- The dictionary of the class names in ascending order. -/
def dictionary (report : Report) : Dictionary := .ofNames report.classes.keys

/-- What stands before the classes. -/
def header (report : Report) : List Field :=
  .int magic :: .int formatVersion :: report.dictionary.fields ++ [.count report.classCount]

/-- Writes the given classes in order until one fails. -/
def saveClasses (report : Report) (dictionary : Dictionary) (sink : Sink) :
    List (String × ClassStore) → ReportSave
  | [] => { report, sink, outcome := sink.flush }
  | (name, store) :: rest =>
    let save := store.save dictionary sink
    let report : Report := { classes := report.classes.insert name save.store }
    match save.outcome with
    | .ok () => report.saveClasses save.dictionary save.sink rest
    | .error error => { report, sink := save.sink, outcome := .error error }

/-- Writes a report and flushes the sink. -/
def save (report : Report) (sink : Sink) : ReportSave :=
  match sink.writeAll report.header with
  | (sink, .ok ()) => report.saveClasses report.dictionary sink report.classes.toList
  | (sink, .error error) => { report, sink, outcome := .error error }

/-- Files a store that was read; its class must be new. -/
def fileClass (report : Report) (store : ClassStore) : Except Failure Report :=
  if (report.class? store.name).isSome then .error (.malformed .repeatedClass)
  else .ok (report.insert store)

/-- Reads one class into the report. -/
def decodeClass (dictionary : Dictionary) (report : Report) : Decoder Report := do
  let store ← ClassStore.decode dictionary
  StateT.lift (report.fileClass store)

/-- Reads a report and leaves what follows it. -/
def decode : Decoder Report := do
  let magicRead ← Decoder.int
  if magicRead ≠ magic then Decoder.fail (.malformed (.badMagic magicRead))
  else
    let version ← Decoder.int
    if version ≠ formatVersion then Decoder.fail (.malformed (.unsupportedVersion version))
    else
      let dictionary ← Dictionary.decode
      Decoder.iterate (decodeClass dictionary) (← Decoder.count) {}

/-- The report at the front of the bytes and the bytes that follow it. -/
def load (bytes : List UInt8) : Except Failure (Report × List UInt8) := decode bytes

end Report

end JvmCoverage
