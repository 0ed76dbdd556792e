import JvmCoverage.Proofs.Field.Decoding
import Mathlib.Algebra.Ring.Nat
import Mathlib.Data.List.Basic
/-!
# Integers of variable length are read back

The bytes of a number in `Varint.encode` say how many they are, so `Decoder.varint` takes exactly
those and leaves what follows (`varint_encode`). Signed numbers are written through `zigzag`, which
`unzigzag` undoes. The last section is about the byte arrays that decoders collect.
-/

set_option autoImplicit false
set_option relaxedAutoImplicit false

namespace JvmCoverage

/-! ### Signed numbers -/

theorem unzigzag_zigzag (value : Int) : unzigzag (zigzag value) = value := by
  cases value with
  | ofNat n =>
    rw [zigzag, unzigzag, if_pos (by omega), Nat.mul_div_cancel_left n (by decide)]
  | negSucc n =>
    rw [zigzag, unzigzag, if_neg (by omega)]
    congr
    omega

theorem zigzag_toInt_lt (value : Int32) : zigzag value.toInt < UInt64.size := by
  have hlow : -2147483648 ≤ value.toInt := value.le_toInt
  have hhigh : value.toInt < 2147483648 := value.toInt_lt
  show zigzag value.toInt < 18446744073709551616
  generalize value.toInt = number at hlow hhigh
  cases number with
  | ofNat n =>
    have hbound : (n : Int) < 2147483648 := hhigh
    rw [zigzag]
    omega
  | negSucc n =>
    rw [zigzag]
    omega

/-! ### Bytes in order -/

@[simp] theorem length_littleEndian (width number : Nat) :
    (littleEndian width number).length = width := by
  induction width generalizing number with
  | zero => rfl
  | succ width ih => rw [littleEndian, List.length_cons, ih]

theorem ofLittleEndian_littleEndian {width number : Nat} (hnumber : number < 256 ^ width) :
    ofLittleEndian (littleEndian width number) = number := by
  induction width generalizing number with
  | zero =>
    rw [Nat.pow_zero] at hnumber
    rw [littleEndian, ofLittleEndian]
    omega
  | succ width ih =>
    have hrest : number / 256 < 256 ^ width :=
      Nat.div_lt_of_lt_mul (by rwa [Nat.pow_succ, Nat.mul_comm] at hnumber)
    have hbyte : (UInt8.ofNat (number % 256)).toNat = number % 256 :=
      UInt8.toNat_ofNat_of_lt' (Nat.mod_lt _ (by decide))
    rw [littleEndian, ofLittleEndian, ih hrest, hbyte]
    exact Nat.mod_add_div number 256

/-! ### Byte arrays -/

/-- The walk of `ByteArray.toList` has what it passed in reverse and the rest still to come. -/
theorem toList_loop (bytes : ByteArray) (index : Nat) (passed : List UInt8) :
    ByteArray.toList.loop bytes index passed = passed.reverse ++ bytes.data.toList.drop index := by
  induction hleft : bytes.size - index generalizing index passed with
  | zero =>
    have hend : bytes.data.toList.length ≤ index := Nat.le_of_sub_eq_zero hleft
    rw [ByteArray.toList.loop, if_neg (by omega), List.drop_eq_nil_of_le hend, List.append_nil]
  | succ left ih =>
    have hindex : index < bytes.size := by omega
    rw [ByteArray.toList.loop, if_pos hindex, ih _ _ (by omega), List.reverse_cons,
      List.append_assoc, List.singleton_append]
    congr
    rw [List.drop_eq_getElem_cons hindex]
    congr
    exact getElem!_pos bytes.data index hindex

theorem toList_eq_data (bytes : ByteArray) : bytes.toList = bytes.data.toList :=
  toList_loop bytes 0 []

theorem toByteArray_toList (bytes : ByteArray) : bytes.toList.toByteArray = bytes := by
  rw [toList_eq_data]
  exact ByteArray.ext (by rw [List.data_toByteArray, Array.toArray_toList])

theorem toList_toByteArray (bytes : List UInt8) : bytes.toByteArray.toList = bytes := by
  rw [toList_eq_data, List.toList_data_toByteArray]

theorem length_toList (bytes : ByteArray) : bytes.toList.length = bytes.size := by
  rw [toList_eq_data]
  rfl

namespace Decoder

theorem takeInto_append (bytes : List UInt8) (taken : ByteArray) (rest : List UInt8) :
    takeInto bytes.length taken (bytes ++ rest) = .ok (taken ++ bytes.toByteArray, rest) := by
  induction bytes generalizing taken with
  | nil =>
    rw [List.toByteArray_nil, ByteArray.append_empty]
    cases rest <;> rfl
  | cons byte bytes ih =>
    refine (ih (taken.push byte)).trans ?_
    rw [← List.singleton_append, List.toByteArray_append, ← ByteArray.append_assoc,
      ByteArray.append_toByteArray_singleton]

theorem take_append (bytes rest : List UInt8) :
    take bytes.length (bytes ++ rest) = .ok (bytes.toByteArray, rest) := by
  rw [take, takeInto_append, ByteArray.empty_append]

/-! ### Numbers -/

theorem varint_literal {number : Nat} (hnumber : number ≤ 250) (rest : List UInt8) :
    varint (UInt8.ofNat number :: rest) = .ok ((number, 1), rest) := by
  have hbyte : (UInt8.ofNat number).toNat = number :=
    UInt8.toNat_ofNat_of_lt' (Nat.lt_of_le_of_lt hnumber (by decide))
  have hlead : Varint.lead (UInt8.ofNat number) = .literal number := by
    rw [Varint.lead, if_pos, hbyte]
    rw [UInt8.le_iff_toNat_le, hbyte]
    exact hnumber
  have hfirst : byte (UInt8.ofNat number :: rest) = .ok (UInt8.ofNat number, rest) := rfl
  rw [varint, bind_of_ok hfirst, hlead]
  rfl

theorem varint_payload {lead : UInt8} {width number : Nat}
    (hlead : Varint.lead lead = .payload width) (hnumber : number < 256 ^ width)
    (rest : List UInt8) :
    varint (lead :: littleEndian width number ++ rest) = .ok ((number, 1 + width), rest) := by
  have htake := take_append (littleEndian width number) rest
  rw [length_littleEndian] at htake
  have hfirst : byte (lead :: littleEndian width number ++ rest) =
      .ok (lead, littleEndian width number ++ rest) := rfl
  rw [varint, bind_of_ok hfirst, hlead]
  refine (bind_of_ok htake).trans ?_
  rw [toList_toByteArray, ofLittleEndian_littleEndian hnumber]
  rfl

/-- A number and the length of its form are read back, and what follows is left. -/
theorem varint_encode {number : Nat} (hnumber : number < UInt64.size) (rest : List UInt8) :
    varint (Varint.encode number ++ rest) =
      .ok ((number, (Varint.encode number).length), rest) := by
  unfold Varint.encode
  by_cases hliteral : number ≤ 250
  · rw [if_pos hliteral]
    exact varint_literal hliteral rest
  · rw [if_neg hliteral]
    by_cases hshort : number < UInt16.size
    · rw [if_pos hshort]
      exact varint_payload rfl hshort rest
    · rw [if_neg hshort]
      by_cases hmiddle : number < UInt32.size
      · rw [if_pos hmiddle]
        exact varint_payload rfl hmiddle rest
      · rw [if_neg hmiddle]
        exact varint_payload rfl hnumber rest

end Decoder

end JvmCoverage
