/-!
# Integers of variable length

A number up to 250 is one byte. A larger one is a lead byte that says how many bytes follow, and
the number in that many bytes, the least significant first: 251 leads two bytes, 252 four and 253
eight. `Varint.encode` picks the shortest form. `zigzag` folds the integers into the naturals so
that those near zero stay short: 0, -1, 1, -2, 2 become 0, 1, 2, 3, 4.
-/

set_option autoImplicit false
set_option relaxedAutoImplicit false

namespace JvmCoverage

/-- The lowest `width` bytes of a number, the least significant first. -/
def littleEndian : Nat → Nat → List UInt8
  | 0, _ => []
  | width + 1, number => UInt8.ofNat (number % 256) :: littleEndian width (number / 256)

/-- The number that bytes stand for, the least significant first. -/
def ofLittleEndian : List UInt8 → Nat
  | [] => 0
  | byte :: rest => byte.toNat + 256 * ofLittleEndian rest

/-- 0, -1, 1, -2, 2 become 0, 1, 2, 3, 4. -/
def zigzag : Int → Nat
  | .ofNat n => 2 * n
  | .negSucc n => 2 * n + 1

def unzigzag (number : Nat) : Int :=
  if number % 2 = 0 then .ofNat (number / 2) else .negSucc (number / 2)

namespace Varint

/-- The shortest form of a number below `2 ^ 64`. -/
def encode (number : Nat) : List UInt8 :=
  if number ≤ 250 then [UInt8.ofNat number]
  else if number < UInt16.size then 251 :: littleEndian 2 number
  else if number < UInt32.size then 252 :: littleEndian 4 number
  else 253 :: littleEndian 8 number

/-- What the lead byte of a number says. -/
inductive Lead
  /-- The byte is the number. -/
  | literal (number : Nat)
  /-- The number is in the next `width` bytes. -/
  | payload (width : Nat)
  /-- The number is wider than 64 bits. -/
  | wide
  /-- The byte has no meaning. -/
  | reserved
  deriving DecidableEq, Repr

def lead (byte : UInt8) : Lead :=
  if byte ≤ 250 then .literal byte.toNat
  else if byte = 251 then .payload 2
  else if byte = 252 then .payload 4
  else if byte = 253 then .payload 8
  else if byte = 254 then .wide
  else .reserved

end Varint

end JvmCoverage
