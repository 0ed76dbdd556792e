import JvmCoverage.Field.Sink
import JvmCoverage.Proofs.Field.Varint
/-!
# Fields are read back

For each kind of field, the decoder of the kind reads it back (`Decoder.reads_int` and so on). A
collection length is written modulo `2 ^ 32`, so it comes back when it is below. On the other side,
`Sink.written_of_writeAll` says that a sink without limit holds the encoded form of what was
written to it.
-/

set_option autoImplicit false
set_option relaxedAutoImplicit false

namespace JvmCoverage

namespace Utf8

theorem decode_toByteArray (text : String) : decode text.toByteArray = .ok text := by
  have htext : String.fromUTF8? text.toByteArray = some text := dif_pos text.isValidUTF8
  rw [decode, htext]

theorem length_encode (text : String) : (encode text).length = text.utf8ByteSize :=
  length_toList text.toByteArray

end Utf8

namespace Decoder

variable {α : Type}

theorem reads_singleton {decoder : Decoder α} {field : Field} {value : α}
    (hdecoder : ∀ bytes rest, field.encode = .ok bytes →
      decoder (bytes ++ rest) = .ok (value, rest)) : Reads decoder [field] value := by
  intro bytes rest hbytes
  obtain ⟨front, back, hfront, hback, rfl⟩ := Field.encodeAll_cons_eq_ok_iff.mp hbytes
  cases hback
  rw [List.append_nil]
  exact hdecoder front rest hfront

theorem reads_byte (value : UInt8) : Reads byte [.byte value] value := by
  refine reads_singleton fun bytes rest hbytes ↦ ?_
  cases hbytes
  rfl

theorem reads_int (value : UInt32) : Reads int [.int value] value := by
  refine reads_singleton fun bytes rest hbytes ↦ ?_
  cases hbytes
  have hvalue : value.toNat < UInt32.size := value.toNat_lt
  rw [int, bind_of_ok (varint_encode (Nat.lt_trans hvalue (by decide)) rest)]
  dsimp only
  rw [if_pos hvalue, UInt32.ofNat_toNat]
  rfl

theorem reads_signed (value : Int32) : Reads signed [.signed value] value := by
  refine reads_singleton fun bytes rest hbytes ↦ ?_
  cases hbytes
  rw [signed, bind_of_ok (varint_encode (zigzag_toInt_lt value) rest)]
  dsimp only
  rw [unzigzag_zigzag, if_pos ⟨value.minValue_le_toInt, value.toInt_le⟩, Int32.ofInt_toInt]
  rfl

theorem reads_text (value : String) : Reads text [.text value] value := by
  refine reads_singleton fun bytes rest hbytes ↦ ?_
  simp only [Field.encode] at hbytes
  by_cases hlimit : (Varint.encode value.utf8ByteSize).length + value.utf8ByteSize ≤ fieldLimit
  · rw [if_pos hlimit] at hbytes
    cases hbytes
    have hsize : value.utf8ByteSize < UInt64.size := by
      rw [fieldLimit] at hlimit
      show value.utf8ByteSize < 18446744073709551616
      omega
    have hbytes := take_append (Utf8.encode value) rest
    rw [Utf8.length_encode] at hbytes
    rw [List.append_assoc, text, bind_of_ok (varint_encode hsize _)]
    dsimp only
    rw [if_neg (Nat.not_lt.mpr hlimit), bind_of_ok hbytes, Utf8.encode, toByteArray_toList,
      Utf8.decode_toByteArray]
    rfl
  · rw [if_neg hlimit] at hbytes
    cases hbytes

/-- A length of any size comes back modulo `2 ^ 32`. -/
theorem reads_count_mod (length : Nat) :
    Reads count [.count length] (length % UInt32.size) := by
  have hread : Reads count [.int (UInt32.ofNat length)] (UInt32.ofNat length).toNat :=
    (reads_int (UInt32.ofNat length)).bind_pure
  rwa [UInt32.toNat_ofNat'] at hread

theorem reads_count {length : Nat} (hlength : length < UInt32.size) :
    Reads count [.count length] length := by
  have hread := reads_count_mod length
  rwa [Nat.mod_eq_of_lt hlength] at hread

end Decoder

/-! ### Sinks without limit -/

theorem Sink.write_of_encode {sink : Sink} (hsink : sink.capacity = none) {field : Field}
    {bytes : List UInt8} (hbytes : field.encode = .ok bytes) :
    sink.write field = ({ sink with written := sink.written ++ bytes.toByteArray }, .ok ()) := by
  simp only [write, hbytes, accept, hsink]

/-- What was written to a sink without limit is the encoded form of the fields. -/
theorem Sink.written_of_writeAll (sink : Sink) (hsink : sink.capacity = none)
    {fields : List Field} (hok : (sink.writeAll fields).2 = .ok ()) :
    ∃ bytes, Field.encodeAll fields = .ok bytes ∧
      (sink.writeAll fields).1 = { sink with written := sink.written ++ bytes.toByteArray } := by
  induction fields generalizing sink with
  | nil => exact ⟨[], rfl, by rw [List.toByteArray_nil, ByteArray.append_empty]; rfl⟩
  | cons field rest ih =>
    cases hfield : field.encode with
    | error fault =>
      simp only [writeAll, write, hfield] at hok
      cases hok
    | ok front =>
      let next : Sink := { sink with written := sink.written ++ front.toByteArray }
      have hwrite : sink.write field = (next, .ok ()) := write_of_encode hsink hfield
      simp only [writeAll, hwrite] at hok ⊢
      obtain ⟨back, hback, hwritten⟩ := ih next hsink hok
      have hall : Field.encodeAll (field :: rest) = .ok (front ++ back) :=
        Field.encodeAll_cons_eq_ok_iff.mpr ⟨front, back, hfield, hback, rfl⟩
      refine ⟨front ++ back, hall, ?_⟩
      rw [hwritten, List.toByteArray_append, ByteArray.append_assoc]

end JvmCoverage
