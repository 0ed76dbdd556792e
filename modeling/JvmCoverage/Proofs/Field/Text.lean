import JvmCoverage.Proofs.Field.RoundTrip
import Mathlib.Tactic.SplitIfs
/-!
# Texts that fit a field

A text is the only field that may have no encoded form, when it is over the limit together with its
length (`Field.exists_encodeAll`). A text that was read can be written again
(`Decoder.ensures_text`), even if its length was announced in more bytes than it needs: the shortest
form of the length takes no more.
-/

set_option autoImplicit false
set_option relaxedAutoImplicit false

namespace JvmCoverage

namespace Field

/-- The text and its length are within the limit of a field. -/
def TextFits (text : String) : Prop :=
  (Varint.encode text.utf8ByteSize).length + text.utf8ByteSize ≤ fieldLimit

instance (text : String) : Decidable (TextFits text) :=
  inferInstanceAs (Decidable (_ ≤ fieldLimit))

/-- Only a text can be too large for its field. -/
theorem exists_encodeAll {fields : List Field}
    (htexts : ∀ text, .text text ∈ fields → TextFits text) :
    ∃ bytes, encodeAll fields = .ok bytes := by
  induction fields with
  | nil => exact ⟨[], rfl⟩
  | cons field rest ih =>
    obtain ⟨back, hback⟩ := ih fun text hmem ↦ htexts text (List.mem_cons_of_mem _ hmem)
    have hfield : ∃ front, field.encode = .ok front := by
      cases field with
      | text text => exact ⟨_, if_pos (htexts text List.mem_cons_self)⟩
      | _ => exact ⟨_, rfl⟩
    obtain ⟨front, hfront⟩ := hfield
    exact ⟨front ++ back, encodeAll_cons_eq_ok_iff.mpr ⟨front, back, hfront, hback, rfl⟩⟩

end Field

theorem Utf8.utf8ByteSize_of_decode {bytes : ByteArray} {text : String}
    (hdecode : decode bytes = .ok text) : text.utf8ByteSize = bytes.size := by
  rw [decode] at hdecode
  cases htext : String.fromUTF8? bytes with
  | none =>
    rw [htext] at hdecode
    cases hdecode
  | some other =>
    rw [htext] at hdecode
    cases hdecode
    unfold String.fromUTF8? at htext
    split at htext
    · cases htext
      rfl
    · cases htext

theorem ofLittleEndian_lt (bytes : List UInt8) : ofLittleEndian bytes < 256 ^ bytes.length := by
  induction bytes with
  | nil => exact Nat.one_pos
  | cons byte rest ih =>
    have hbyte := byte.toNat_lt
    rw [ofLittleEndian, List.length_cons, Nat.pow_succ]
    omega

namespace Varint

theorem length_encode_le_of_lead_literal {byte : UInt8} {number : Nat}
    (hlead : lead byte = .literal number) : (encode number).length ≤ 1 := by
  have hnumber : number ≤ 250 := by
    unfold lead at hlead
    split_ifs at hlead with hbyte
    cases hlead
    exact UInt8.le_iff_toNat_le.mp hbyte
  rw [encode, if_pos hnumber]
  rfl

theorem length_encode_le_of_lead_payload {byte : UInt8} {width number : Nat}
    (hlead : lead byte = .payload width) (hnumber : number < 256 ^ width) :
    (encode number).length ≤ 1 + width := by
  have hwidth : width = 2 ∨ width = 4 ∨ width = 8 := by
    unfold lead at hlead
    split_ifs at hlead <;> cases hlead <;> simp
  unfold encode
  split_ifs with hliteral hshort hmiddle
  · simp
  · rcases hwidth with rfl | rfl | rfl <;> simp
  · rcases hwidth with rfl | rfl | rfl
    · exact absurd hnumber hshort
    · simp
    · simp
  · rcases hwidth with rfl | rfl | rfl
    · exact absurd hnumber hshort
    · exact absurd hnumber hmiddle
    · simp

end Varint

namespace Decoder

theorem ensures_takeInto (count : Nat) (taken : ByteArray) :
    Ensures (takeInto count taken) fun bytes ↦ bytes.size = taken.size + count := by
  induction count generalizing taken with
  | zero =>
    intro bytes value rest hvalue
    cases bytes <;> cases hvalue <;> rfl
  | succ count ih =>
    intro bytes value rest hvalue
    cases bytes with
    | nil => cases hvalue
    | cons byte bytes =>
      have hsize := ih (taken.push byte) hvalue
      rw [ByteArray.size_push] at hsize
      omega

/-- A number comes with the length of its form, which the shortest form does not exceed. -/
theorem ensures_varint :
    Ensures varint fun header ↦ (Varint.encode header.1).length ≤ header.2 := by
  refine ensures_bind (ensures_true byte) fun byte _ ↦ ?_
  cases hlead : Varint.lead byte with
  | literal number => exact ensures_pure (Varint.length_encode_le_of_lead_literal hlead)
  | payload width =>
    refine ensures_bind (ensures_takeInto width .empty) fun bytes hbytes ↦ ensures_pure ?_
    have hnumber := ofLittleEndian_lt bytes.toList
    rw [length_toList, hbytes, ByteArray.size_empty, Nat.zero_add] at hnumber
    exact Varint.length_encode_le_of_lead_payload hlead hnumber
  | wide => exact ensures_fail _ _
  | reserved => exact ensures_fail _ _

/-- A text that is read can be written again. -/
theorem ensures_text : Ensures text Field.TextFits := by
  refine ensures_bind ensures_varint fun header hheader ↦ ?_
  obtain ⟨length, headerLength⟩ := header
  dsimp only at hheader ⊢
  split
  · exact ensures_fail _ _
  · next hlimit =>
    refine ensures_bind (ensures_takeInto length .empty) fun bytes hbytes ↦ ?_
    rw [ByteArray.size_empty, Nat.zero_add] at hbytes
    split
    · next value hvalue =>
      refine ensures_pure ?_
      rw [Field.TextFits, Utf8.utf8ByteSize_of_decode hvalue, hbytes]
      omega
    · exact ensures_fail _ _

end Decoder

end JvmCoverage
