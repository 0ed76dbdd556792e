import JvmCoverage.Text.Utf8
/-!
# Errors

Counting and filtering never fail. Merging, saving and loading can, and `Failure` says why:
each kind of cause has its own inductive type, and `Failure.message` words them all.
-/

set_option autoImplicit false
set_option relaxedAutoImplicit false

namespace JvmCoverage

/-- How the records of one line differ when they cannot be merged. -/
inductive ShapeFault
  | owner (ours theirs : String)
  | jumpCount (ours theirs : Nat)
  | jumpId (ours theirs : UInt32)
  | switchCount (ours theirs : Nat)
  /-- The switches at the position of our switch `ours` differ in id or keys. -/
  | switchKeys (ours : UInt32)
  deriving DecidableEq, Repr

def ShapeFault.message : ShapeFault → String
  | .owner ours theirs => s!"owned by {ours} here and by {theirs} in merged data"
  | .jumpCount ours theirs => s!"{ours} jumps vs {theirs}"
  | .jumpId ours theirs => s!"jump {ours} vs jump {theirs}"
  | .switchCount ours theirs => s!"{ours} switches vs {theirs}"
  | .switchKeys ours => s!"switch {ours} keys differ"

/-- How a stream of well-formed fields fails to be a report. -/
inductive LayoutFault
  | badMagic (magic : UInt32)
  | unsupportedVersion (version : UInt32)
  | lineTooHigh (line : UInt32)
  | repeatedLine (line : UInt32) (className : String)
  | repeatedClass
  | unknownSwitchTag (tag : UInt8)
  | switchTooWide
  deriving DecidableEq, Repr

def LayoutFault.message : LayoutFault → String
  | .badMagic magic => "bad magic 0x" ++ String.ofList (Nat.toDigits 16 magic.toNat)
  | .unsupportedVersion version => s!"unsupported format version {version}"
  | .lineTooHigh line => s!"line number {line} exceeds 65535"
  | .repeatedLine line className => s!"line {line} of class {className} appears twice"
  | .repeatedClass => "class appears twice"
  | .unknownSwitchTag tag => s!"unknown switch key tag {tag}"
  | .switchTooWide => "switch range too wide"

/-- How a single field cannot be written or read. -/
inductive FieldFault
  | inputEnded
  | sinkFull
  /-- The field, its length included, is over the size limit. -/
  | tooLarge
  | unsignedRange (value : Nat)
  | signedRange (value : Int)
  /-- The lead byte announces an integer of 128 bits. -/
  | wideInteger
  /-- The lead byte has no meaning. -/
  | reservedLead
  | text (fault : Utf8.Fault)
  deriving DecidableEq, Repr

def FieldFault.message : FieldFault → String
  | .inputEnded => "io error: failed to fill whole buffer"
  | .sinkFull => "io error: failed to write whole buffer"
  | .tooLarge => "the size limit has been reached"
  | .unsignedRange value => s!"Invalid u32 {value}: you may have a version disagreement?"
  | .signedRange value => s!"Invalid i32 {value}: you may have a version disagreement?"
  | .wideInteger =>
    "Invalid value (u128 range): you may have a version or configuration disagreement?"
  | .reservedLead =>
    "\nByte 255 is treated as an extension point; it should not be encoding anything.\n" ++
      "Do you have a mismatched bincode version or configuration?\n"
  | .text fault => "string is not valid utf8: " ++ fault.message

/-- How the storage under a report fails. -/
inductive StorageFault
  | flushRefused
  | noSuchFile
  deriving DecidableEq, Repr

def StorageFault.message : StorageFault → String
  | .flushRefused => "flush refused"
  | .noSuchFile => "No such file or directory (os error 2)"

/-- Why merging, saving or loading coverage failed. -/
inductive Failure
  /-- Coverage of two different classes was merged. -/
  | classMismatch (expected actual : String)
  | shapeMismatch (line : UInt32) (fault : ShapeFault)
  /-- A class record names its class by an index that the dictionary does not hold. -/
  | unknownIndex (index : UInt32)
  | malformed (fault : LayoutFault)
  | field (fault : FieldFault)
  | storage (fault : StorageFault)
  deriving DecidableEq, Repr

def Failure.message : Failure → String
  | .classMismatch expected actual =>
    s!"Cannot merge coverage of class {actual} into class {expected}"
  | .shapeMismatch line fault => s!"Line {line}: branch structure mismatch: " ++ fault.message
  | .unknownIndex index => s!"Unknown dictionary index {index}"
  | .malformed fault => "Malformed coverage report: " ++ fault.message
  | .field fault => "Encoding error: " ++ fault.message
  | .storage fault => "IO error: " ++ fault.message

end JvmCoverage
