import JvmCoverage.Proofs.Field.Delimited
import JvmCoverage.Report.Layout
import Mathlib.Data.List.Basic
/-!
# Reports find the end of their input

A report announces the length of everything it holds before it holds it, and is read by decoders
that are put together of those of its fields. So the whole is `Decoder.SelfDelimiting` as its fields
are, whatever lies in the bytes: integers that are longer than they need to be, groups without
lines, names that come twice. The main statement is `Report.load_selfDelimiting`.
-/

set_option autoImplicit false
set_option relaxedAutoImplicit false

namespace JvmCoverage

open Decoder

/-! ### Lines -/

theorem CaseKeys.selfDelimiting_decode : SelfDelimiting CaseKeys.decode := by
  refine selfDelimiting_byte.bind fun tag ↦ ?_
  split
  · refine selfDelimiting_count.bind fun length ↦ ?_
    exact (selfDelimiting_collect selfDelimiting_signed length).bind fun _ ↦ selfDelimiting_pure _
  · split
    · exact selfDelimiting_signed.bind fun _ ↦ selfDelimiting_signed.bind fun _ ↦
        selfDelimiting_pure _
    · exact selfDelimiting_fail _

theorem JumpRecord.selfDelimiting_decode (id : UInt32) : SelfDelimiting (JumpRecord.decode id) :=
  selfDelimiting_int.bind fun _ ↦ selfDelimiting_int.bind fun _ ↦ selfDelimiting_pure _

theorem SwitchRecord.selfDelimiting_decode (id : UInt32) :
    SelfDelimiting (SwitchRecord.decode id) := by
  refine CaseKeys.selfDelimiting_decode.bind fun keys ↦ selfDelimiting_int.bind fun unmatched ↦ ?_
  split
  · exact selfDelimiting_fail _
  · exact (selfDelimiting_collect selfDelimiting_int keys.arity).bind fun _ ↦ selfDelimiting_pure _

namespace LineRecord

theorem selfDelimiting_decodeBranches {α : Type} {decode : UInt32 → Decoder α}
    (hdecode : ∀ id, SelfDelimiting (decode id)) (length : Nat) :
    SelfDelimiting (decodeBranches decode length) :=
  selfDelimiting_iterate (fun _ ↦ (hdecode _).bind fun _ ↦ selfDelimiting_pure _) length #[]

theorem selfDelimiting_decode (signature : String) : SelfDelimiting (decode signature) := by
  refine selfDelimiting_int.bind fun line ↦ ?_
  split
  · exact selfDelimiting_fail _
  · refine selfDelimiting_int.bind fun hits ↦ selfDelimiting_count.bind fun jumpCount ↦ ?_
    refine (selfDelimiting_decodeBranches JumpRecord.selfDelimiting_decode jumpCount).bind
      fun jumps ↦ selfDelimiting_count.bind fun switchCount ↦ ?_
    exact (selfDelimiting_decodeBranches SwitchRecord.selfDelimiting_decode switchCount).bind
      fun _ ↦ selfDelimiting_pure _

end LineRecord

/-! ### Classes -/

namespace ClassStore

theorem selfDelimiting_decodeRecord (signature : String) (store : ClassStore) :
    SelfDelimiting (decodeRecord signature store) :=
  (LineRecord.selfDelimiting_decode signature).bind fun _ ↦ selfDelimiting_lift _

theorem selfDelimiting_decodeGroup (store : ClassStore) : SelfDelimiting store.decodeGroup :=
  selfDelimiting_text.bind fun signature ↦ selfDelimiting_count.bind fun length ↦
    selfDelimiting_iterate (selfDelimiting_decodeRecord signature) length _

theorem selfDelimiting_decode (dictionary : Dictionary) : SelfDelimiting (decode dictionary) := by
  refine selfDelimiting_int.bind fun index ↦ ?_
  split
  · exact selfDelimiting_fail _
  · exact selfDelimiting_count.bind fun length ↦
      selfDelimiting_iterate selfDelimiting_decodeGroup length _

end ClassStore

theorem Dictionary.selfDelimiting_decode : SelfDelimiting Dictionary.decode :=
  selfDelimiting_count.bind fun length ↦
    selfDelimiting_iterate (fun _ ↦ selfDelimiting_text.bind fun _ ↦ selfDelimiting_pure _) length _

/-! ### Reports -/

namespace Report

theorem selfDelimiting_decodeClass (dictionary : Dictionary) (report : Report) :
    SelfDelimiting (decodeClass dictionary report) :=
  (ClassStore.selfDelimiting_decode dictionary).bind fun _ ↦ selfDelimiting_lift _

theorem selfDelimiting_decode : SelfDelimiting decode := by
  refine selfDelimiting_int.bind fun magicRead ↦ ?_
  split
  · exact selfDelimiting_fail _
  · refine selfDelimiting_int.bind fun version ↦ ?_
    split
    · exact selfDelimiting_fail _
    · exact Dictionary.selfDelimiting_decode.bind fun dictionary ↦
        selfDelimiting_count.bind fun length ↦
          selfDelimiting_iterate (selfDelimiting_decodeClass dictionary) length _

/-- Whatever bytes a report is loaded from, the part that was taken is loaded as the same report in
front of any other bytes, which are left, and of a shorter part the input is said to have ended. -/
theorem load_selfDelimiting {bytes rest : List UInt8} {report : Report}
    (hload : load bytes = .ok (report, rest)) :
    ∃ length, length + rest.length = bytes.length ∧ bytes.drop length = rest ∧
      (∀ more, load (bytes.take length ++ more) = .ok (report, more)) ∧
      (∀ kept < length, load (bytes.take kept) = .error (.field .inputEnded)) ∧
      FieldFault.inputEnded.message = "io error: failed to fill whole buffer" := by
  obtain ⟨taken, rfl, htaken⟩ := selfDelimiting_decode hload
  refine ⟨taken.length, List.length_append.symm, List.drop_left, fun more ↦ ?_,
    fun kept hkept ↦ ?_, rfl⟩
  · rw [List.take_left]
    exact htaken.append more
  · rw [List.take_append_of_le_length (Nat.le_of_lt hkept)]
    exact htaken.cut kept hkept

/-- One class with a line that has a jump and a switch over listed keys, and two bytes behind it;
cut within the last arm counter, and followed by something else. -/
theorem load_selfDelimiting_of_switch :
    let bytes : List UInt8 := [252, 0x52, 0x56, 0x43, 0x4C, 1, 1, 1, 67, 1, 0, 1,
      4, 109, 40, 41, 86, 1, 7, 2, 1, 1, 0, 1, 0, 2, 2, 4, 5, 0, 251, 0, 1, 9, 9]
    ∃ report, load bytes = .ok (report, [9, 9]) ∧
      load (bytes.take 33 ++ [252]) = .ok (report, [252]) ∧
      load (bytes.take 32) = .error (.field .inputEnded) := by
  intro bytes
  have hleft : (load bytes).map Prod.snd = .ok [9, 9] := by decide +kernel
  obtain ⟨report, rest, hload, rfl⟩ :
      ∃ report rest, load bytes = .ok (report, rest) ∧ rest = [9, 9] := by
    cases hload : load bytes with
    | error error => rw [hload] at hleft; cases hleft
    | ok front => rw [hload] at hleft; exact ⟨front.1, front.2, rfl, Except.ok.inj hleft⟩
  obtain ⟨length, hlength, -, happend, hcut, -⟩ := load_selfDelimiting hload
  obtain rfl : length = 33 := by simpa [bytes] using hlength
  exact ⟨report, hload, happend [252], hcut 32 (by decide)⟩

end Report

end JvmCoverage
