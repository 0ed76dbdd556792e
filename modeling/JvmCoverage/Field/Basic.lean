import JvmCoverage.Error
import JvmCoverage.Field.Varint
/-!
# Fields

A report is a sequence of fields, and each field is encoded on its own: integers as varints, signed
ones after the zigzag, a byte as it is, and a text as its length in bytes and its UTF-8 form. A
text that is over `fieldLimit` together with its length has no encoded form.
-/

set_option autoImplicit false
set_option relaxedAutoImplicit false

namespace JvmCoverage

/-- The most bytes that one encoded field can have. -/
def fieldLimit : Nat := 16777216

/-- A unit of the report format. -/
inductive Field
  | int (value : UInt32)
  | signed (value : Int32)
  | byte (value : UInt8)
  | text (value : String)
  deriving DecidableEq, Repr

namespace Field

/-- The length of a collection, reduced modulo `2 ^ 32`. -/
def count (length : Nat) : Field := .int (UInt32.ofNat length)

/-- The bytes of a field. -/
def encode : Field → Except FieldFault (List UInt8)
  | .int value => .ok (Varint.encode value.toNat)
  | .signed value => .ok (Varint.encode (zigzag value.toInt))
  | .byte value => .ok [value]
  | .text value =>
    let header := Varint.encode value.utf8ByteSize
    if header.length + value.utf8ByteSize ≤ fieldLimit then .ok (header ++ Utf8.encode value)
    else .error .tooLarge

end Field

end JvmCoverage
