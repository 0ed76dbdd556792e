import JvmCoverage.Report.Layout
/-!
# Folders of saved reports

A `Folder` holds files by name and has no subfolders, so a name with a slash has nowhere to go.
Saving a report replaces a file; when writing fails the file keeps what was written before.
-/

set_option autoImplicit false
set_option relaxedAutoImplicit false

namespace JvmCoverage

open Std (ExtTreeMap)

/-- Files by name. -/
structure Folder where
  files : ExtTreeMap String ByteArray := ∅

namespace Folder

def read? (folder : Folder) (name : String) : Option ByteArray := folder.files[name]?

def write (folder : Folder) (name : String) (bytes : ByteArray) : Folder :=
  { files := folder.files.insert name bytes }

/-- A file of this name can be made. -/
def holds (name : String) : Bool := !name.contains '/'

/-- Writes a report to a file: the folder and the report after that, and what came of it. -/
def saveReport (folder : Folder) (name : String) (report : Report) :
    Folder × Report × Except Failure Unit :=
  if holds name then
    let save := report.save {}
    (folder.write name save.sink.written, save.report, save.outcome)
  else (folder, report, .error (.storage .noSuchFile))

def loadReport (folder : Folder) (name : String) : Except Failure Report :=
  match folder.read? name with
  | some bytes => (Report.load bytes.toList).map Prod.fst
  | none => .error (.storage .noSuchFile)

end Folder

end JvmCoverage
