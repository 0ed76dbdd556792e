import JvmCoverage.Field.Basic
/-!
# Decoders

A `Decoder` takes what it needs from the front of the bytes and leaves the rest, or fails. There is
one decoder per kind of field, and `Decoder.iterate` runs a decoder a given number of times. Every
length is a claim of the input: nothing is allocated for it before the bytes are there.
-/

set_option autoImplicit false
set_option relaxedAutoImplicit false

namespace JvmCoverage

/-- Takes a value from the front of the bytes and leaves the rest, or fails. -/
abbrev Decoder (α : Type) := StateT (List UInt8) (Except Failure) α

namespace Decoder

def fail {α : Type} (error : Failure) : Decoder α := fun _ ↦ .error error

/-- Moves the next `count` bytes behind those that were taken before. -/
def takeInto (count : Nat) (taken : ByteArray) : Decoder ByteArray := fun bytes ↦
  match count, bytes with
  | 0, bytes => .ok (taken, bytes)
  | _ + 1, [] => .error (.field .inputEnded)
  | count + 1, byte :: rest => takeInto count (taken.push byte) rest

/-- The next `count` bytes. -/
def take (count : Nat) : Decoder ByteArray := takeInto count .empty

def byte : Decoder UInt8
  | [] => .error (.field .inputEnded)
  | byte :: rest => .ok (byte, rest)

/-- A varint and the number of bytes it took. -/
def varint : Decoder (Nat × Nat) := do
  match Varint.lead (← byte) with
  | .literal number => pure (number, 1)
  | .payload width => do
    let bytes ← take width
    pure (ofLittleEndian bytes.toList, 1 + width)
  | .wide => fail (.field .wideInteger)
  | .reserved => fail (.field .reservedLead)

def int : Decoder UInt32 := do
  let (number, _) ← varint
  if number < UInt32.size then pure (UInt32.ofNat number)
  else fail (.field (.unsignedRange number))

def signed : Decoder Int32 := do
  let (number, _) ← varint
  let value := unzigzag number
  if Int32.minValue.toInt ≤ value ∧ value ≤ Int32.maxValue.toInt then pure (Int32.ofInt value)
  else fail (.field (.signedRange value))

/-- A text. Its announced length is held against the limit before its bytes are looked at. -/
def text : Decoder String := do
  let (length, headerLength) ← varint
  if fieldLimit < headerLength + length then fail (.field .tooLarge)
  else
    let bytes ← take length
    match Utf8.decode bytes with
    | .ok value => pure value
    | .error fault => fail (.field (.text fault))

/-- The length of a collection. -/
def count : Decoder Nat := do
  let number ← int
  pure number.toNat

/-- Carries a state through `rounds` runs of `step`. -/
def iterate {σ : Type} (step : σ → Decoder σ) : Nat → σ → Decoder σ
  | 0, state => pure state
  | rounds + 1, state => fun bytes ↦
    match step state bytes with
    | .ok (state, rest) => iterate step rounds state rest
    | .error error => .error error

/-- The results of `rounds` runs of a decoder. -/
def collect {α : Type} (item : Decoder α) (rounds : Nat) : Decoder (Array α) :=
  iterate (fun items ↦ do pure (items.push (← item))) rounds #[]

end Decoder

end JvmCoverage
