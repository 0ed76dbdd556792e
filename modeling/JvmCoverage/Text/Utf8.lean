/-!
# UTF-8 text

`Utf8.encode` and `Utf8.decode` go between strings and bytes. When bytes are not well-formed UTF-8
`Utf8.firstFault` says where the first faulty sequence starts and how far it was well formed: it
walks the bytes with the list of ranges that the bytes still missing from the current sequence
must lie in.
-/

set_option autoImplicit false
set_option relaxedAutoImplicit false

namespace JvmCoverage.Utf8

/-- Why bytes are not UTF-8. -/
inductive Fault
  /-- The `length` bytes from `index` on begin a sequence that the next byte cannot continue. -/
  | invalid (length index : Nat)
  /-- The bytes end inside the sequence that starts at `index`. -/
  | incomplete (index : Nat)
  deriving DecidableEq, Repr

def Fault.message : Fault → String
  | .invalid length index => s!"invalid utf-8 sequence of {length} bytes from index {index}"
  | .incomplete index => s!"incomplete utf-8 byte sequence from index {index}"

/-- The ranges of the bytes that follow a lead byte; `none` for a byte that leads no sequence.
The narrowed second ranges shut out overlong forms, surrogates and values past `0x10FFFF`. -/
def followers (lead : UInt8) : Option (List (UInt8 × UInt8)) :=
  if lead < 0x80 then some []
  else if lead < 0xC2 then none
  else if lead < 0xE0 then some [(0x80, 0xBF)]
  else if lead = 0xE0 then some [(0xA0, 0xBF), (0x80, 0xBF)]
  else if lead = 0xED then some [(0x80, 0x9F), (0x80, 0xBF)]
  else if lead < 0xF0 then some [(0x80, 0xBF), (0x80, 0xBF)]
  else if lead = 0xF0 then some [(0x90, 0xBF), (0x80, 0xBF), (0x80, 0xBF)]
  else if lead < 0xF4 then some [(0x80, 0xBF), (0x80, 0xBF), (0x80, 0xBF)]
  else if lead = 0xF4 then some [(0x80, 0x8F), (0x80, 0xBF), (0x80, 0xBF)]
  else none

/-- The first fault of the bytes that follow the first `seen` bytes of a sequence starting at
`start`, where `missing` holds the ranges of the bytes that the sequence still needs. -/
def faultFrom (start seen : Nat) (missing : List (UInt8 × UInt8)) : List UInt8 → Fault
  | [] => .incomplete start
  | byte :: rest =>
    match missing with
    | [] =>
      match followers byte with
      | none => .invalid 1 (start + seen)
      | some ranges => faultFrom (start + seen) 1 ranges rest
    | (low, high) :: ranges =>
      if low ≤ byte ∧ byte ≤ high then faultFrom start (seen + 1) ranges rest
      else .invalid seen start

/-- The first fault of bytes that are not UTF-8. -/
def firstFault (bytes : List UInt8) : Fault := faultFrom 0 0 [] bytes

def encode (text : String) : List UInt8 := text.toByteArray.toList

def decode (bytes : ByteArray) : Except Fault String :=
  match String.fromUTF8? bytes with
  | some text => .ok text
  | none => .error (firstFault bytes.toList)

end JvmCoverage.Utf8
