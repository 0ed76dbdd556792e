import JvmCoverage.Proofs.Field.RoundTrip
import JvmCoverage.Proofs.Line.Sized
/-!
# Line records are read back

A report holds neither the owner of a line nor the ids of its branches, so what is read back is the
record under the owner that the reader supplies, with positions as ids: `LineRecord.renumbered`. A
record whose ids are positions is read back as it is (`LineRecord.renumbered_of_positional`). The
number of arms of a switch is not written either, but computed from the keys, which is why the
record has to be sized; `LineRecord.Fits` says what else a record must keep within for
`LineRecord.reads_fields`.
-/

set_option autoImplicit false
set_option relaxedAutoImplicit false

namespace JvmCoverage

open Decoder

/-! ### Branches -/

theorem CaseKeys.reads_fields {keys : CaseKeys} (harity : keys.arity ≤ maxArity) :
    Reads decode keys.fields keys := by
  cases keys with
  | listed keys =>
    refine (reads_byte 0).bind_cons ?_
    rw [if_pos rfl]
    have hlength : keys.length < UInt32.size := Nat.lt_of_le_of_lt harity (by decide)
    refine (reads_count hlength).bind_cons ?_
    rw [List.map_eq_flatMap]
    exact (reads_collect keys fun key _ ↦ reads_signed key).bind_pure
  | range min max =>
    refine (reads_byte 1).bind_cons ?_
    rw [if_neg (by decide), if_pos rfl]
    exact (reads_signed min).bind_cons (reads_signed max).bind_pure

theorem JumpRecord.reads_fields (jump : JumpRecord) (id : UInt32) :
    Reads (decode id) jump.fields { jump with id } :=
  (reads_int jump.taken.value).bind_cons (reads_int jump.fallen.value).bind_pure

theorem CounterBank.map_mk_values (bank : CounterBank) :
    (⟨bank.values.toArray.map Counter.mk⟩ : CounterBank) = bank := by
  have hslots (counter : Counter) : (Counter.mk ∘ Counter.value) counter = counter := rfl
  simp [values, funext hslots]

theorem SwitchRecord.reads_fields {switch : SwitchRecord} (hsized : switch.Sized)
    (harity : switch.keys.arity ≤ CaseKeys.maxArity) (id : UInt32) :
    Reads (decode id) switch.fields { switch with id } := by
  refine (CaseKeys.reads_fields harity).bind ?_
  refine (reads_int switch.unmatched.value).bind_cons ?_
  rw [if_neg (Nat.not_lt.mpr harity), List.map_eq_flatMap]
  have hlength : switch.arms.values.length = switch.keys.arity := by
    rw [← hsized, CounterBank.values, List.length_map, Array.length_toList]
    rfl
  have harms := reads_collect switch.arms.values fun count _ ↦ reads_int count
  rw [hlength] at harms
  have hread := harms.bind_pure (f := fun arms : Array UInt32 ↦
    ({ id, keys := switch.keys, unmatched := ⟨switch.unmatched.value⟩,
       arms := ⟨arms.map Counter.mk⟩ } : SwitchRecord))
  rwa [CounterBank.map_mk_values] at hread

namespace LineRecord

/-- Branches are read one after another, each under its position. -/
theorem reads_branches {α : Type} {decode : UInt32 → Decoder α} {fields : α → List Field}
    (branches : Array α) (place : UInt32 → α → α)
    (hbranch : ∀ id, ∀ branch ∈ branches, Reads (decode id) (fields branch) (place id branch)) :
    Reads (decodeBranches decode branches.size) (branches.toList.flatMap fields)
      (branches.mapIdx fun slot branch ↦ place (UInt32.ofNat slot) branch) := by
  let state (passed : List α) : Array α :=
    (passed.mapIdx fun slot branch ↦ place (UInt32.ofNat slot) branch).toArray
  have hread : Reads (decodeBranches decode branches.toList.length)
      (branches.toList.flatMap fields) (state branches.toList) := by
    refine reads_iterate branches.toList state fun passed branch rest hbranches ↦ ?_
    have hmem : branch ∈ branches := by
      rw [← Array.mem_toList_iff, hbranches]
      simp
    have hsize : (state passed).size = passed.length := by simp [state]
    have hnext : state (passed ++ [branch]) =
        (state passed).push (place (UInt32.ofNat passed.length) branch) := by
      simp [state, List.mapIdx_concat]
    rw [hsize, hnext]
    exact (hbranch _ branch hmem).bind_pure
  have hlast : state branches.toList =
      branches.mapIdx fun slot branch ↦ place (UInt32.ofNat slot) branch := by
    simp [state, ← List.mapIdx_toArray]
  rwa [Array.length_toList, hlast] at hread

/-- The record as a report gives it back, with positions as ids. -/
def renumbered (record : LineRecord) : LineRecord :=
  { record with
    jumps := record.jumps.mapIdx fun slot jump ↦ { jump with id := UInt32.ofNat slot }
    switches := record.switches.mapIdx fun slot switch ↦ { switch with id := UInt32.ofNat slot } }

/-- The id of each branch is its position. -/
structure Positional (record : LineRecord) : Prop where
  jump_id : ∀ slot jump, record.jumps[slot]? = some jump → jump.id = UInt32.ofNat slot
  switch_id : ∀ slot switch, record.switches[slot]? = some switch → switch.id = UInt32.ofNat slot

theorem Positional.addHits {record : LineRecord} (hpositional : record.Positional)
    (count : UInt32) : (record.addHits count).Positional :=
  ⟨hpositional.jump_id, hpositional.switch_id⟩

theorem renumbered_of_positional {record : LineRecord} (hpositional : record.Positional) :
    record.renumbered = record := by
  have hjumps : (record.jumps.mapIdx fun slot jump ↦ { jump with id := UInt32.ofNat slot }) =
      record.jumps := by
    refine Array.ext_getElem? fun slot ↦ ?_
    rw [Array.getElem?_mapIdx]
    cases hjump : record.jumps[slot]? with
    | none => rfl
    | some jump => rw [Option.map_some, ← hpositional.jump_id slot jump hjump]
  have hswitches :
      (record.switches.mapIdx fun slot switch ↦ { switch with id := UInt32.ofNat slot }) =
        record.switches := by
    refine Array.ext_getElem? fun slot ↦ ?_
    rw [Array.getElem?_mapIdx]
    cases hswitch : record.switches[slot]? with
    | none => rfl
    | some switch => rw [Option.map_some, ← hpositional.switch_id slot switch hswitch]
  rw [renumbered, hjumps, hswitches]

theorem positional_iff {record : LineRecord} :
    record.Positional ↔ record.renumbered = record := by
  refine ⟨renumbered_of_positional, fun heq ↦
    ⟨fun slot jump hjump ↦ ?_, fun slot switch hswitch ↦ ?_⟩⟩
  · have hslot := congrArg (fun changed : LineRecord ↦ changed.jumps[slot]?) heq
    simp only [renumbered, Array.getElem?_mapIdx, hjump, Option.map_some, Option.some_inj] at hslot
    exact (congrArg JumpRecord.id hslot).symm
  · have hslot := congrArg (fun changed : LineRecord ↦ changed.switches[slot]?) heq
    simp only [renumbered, Array.getElem?_mapIdx, hswitch, Option.map_some, Option.some_inj]
      at hslot
    exact (congrArg SwitchRecord.id hslot).symm

instance : DecidablePred Positional := fun _ ↦ decidable_of_iff _ positional_iff.symm

/-- What a record must keep within to be read back. -/
structure Fits (record : LineRecord) : Prop where
  line_le : record.line ≤ highestLineNumber
  jumps_lt : record.jumps.size < UInt32.size
  switches_lt : record.switches.size < UInt32.size
  arity_le : ∀ switch ∈ record.switches, switch.keys.arity ≤ CaseKeys.maxArity

theorem Fits.addHits {record : LineRecord} (hfits : record.Fits) (count : UInt32) :
    (record.addHits count).Fits :=
  ⟨hfits.line_le, hfits.jumps_lt, hfits.switches_lt, hfits.arity_le⟩

/-- What was read from a report can be written to one. -/
theorem AsRead.fits {signature : String} {record : LineRecord} (hread : record.AsRead signature) :
    record.Fits where
  line_le := hread.line_le
  jumps_lt := hread.jumps_lt
  switches_lt := hread.switches_lt
  arity_le switch hswitch := by
    obtain ⟨slot, hslot⟩ := Array.mem_iff_getElem?.mp hswitch
    exact (hread.switch slot switch hslot).2.2

theorem AsRead.positional {signature : String} {record : LineRecord}
    (hread : record.AsRead signature) : record.Positional where
  jump_id := hread.jump_id
  switch_id slot switch hswitch := (hread.switch slot switch hswitch).1

theorem reads_fields {record : LineRecord} (hsized : record.Sized) (hfits : record.Fits) :
    Reads (decode record.signature) record.fields record.renumbered := by
  rw [fields]
  simp only [List.cons_append]
  refine (reads_int record.line).bind_cons ?_
  rw [if_neg (UInt32.not_lt.mpr hfits.line_le)]
  refine (reads_int record.hits.value).bind_cons ?_
  refine (reads_count hfits.jumps_lt).bind_cons ?_
  refine (reads_branches record.jumps _ fun id jump _ ↦ jump.reads_fields id).bind ?_
  refine (reads_count hfits.switches_lt).bind_cons ?_
  exact (reads_branches record.switches _ fun id switch hmem ↦
    SwitchRecord.reads_fields (hsized switch hmem) (hfits.arity_le switch hmem) id).bind_pure

end LineRecord

end JvmCoverage
