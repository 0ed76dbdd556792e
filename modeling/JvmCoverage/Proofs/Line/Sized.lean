import JvmCoverage.Line.Layout
import JvmCoverage.Proofs.Field.Decoding
import JvmCoverage.Proofs.Line.Operation
/-!
# Switches with one counter per arm

A switch record keeps its keys and a bank of counters, and nothing in its type says that the bank
has a counter for each arm. `LineRecord.Sized` does. Every change of a record keeps it
(`RecordOp.sized_apply`), and so does reading (`LineRecord.sized_decode`), so every reachable record
has it (`LineRecord.Reachable.sized`). `LineRecord.AsRead` is all that reading ensures of a record.
-/

set_option autoImplicit false
set_option relaxedAutoImplicit false

namespace JvmCoverage

namespace SwitchRecord

/-- The switch has one counter per arm. -/
def Sized (switch : SwitchRecord) : Prop := switch.arms.size = switch.keys.arity

theorem sized_fresh (id : UInt32) (keys : CaseKeys) : (fresh id keys).Sized := by
  simp [Sized, fresh, CounterBank.zeros, CounterBank.size]

theorem sized_hit {switch : SwitchRecord} (hsized : switch.Sized) (key : Int32) :
    (switch.hit key).Sized := by
  unfold hit
  split
  · simpa [Sized, CounterBank.hit, CounterBank.size] using hsized
  · exact hsized

theorem sized_absorb {switch : SwitchRecord} (hsized : switch.Sized) (other : SwitchRecord) :
    (switch.absorb other).Sized := by
  simpa [Sized, absorb, CounterBank.addAll, CounterBank.size] using hsized

end SwitchRecord

namespace LineRecord

/-- Every switch of the record has one counter per arm. -/
def Sized (record : LineRecord) : Prop := ∀ switch ∈ record.switches, switch.Sized

theorem sized_fresh (line : UInt32) (signature : String) : Sized { line, signature } := by
  intro switch hswitch
  cases Array.not_mem_empty switch hswitch

theorem sized_absorb {record : LineRecord} (hsized : record.Sized) (other : LineRecord) :
    (record.absorb other).Sized := by
  intro switch hswitch
  obtain ⟨slot, hslot, rfl⟩ := Array.mem_mapIdx.mp hswitch
  cases other.switches[slot]? with
  | none => exact hsized _ (Array.getElem_mem hslot)
  | some theirs => exact SwitchRecord.sized_absorb (hsized _ (Array.getElem_mem hslot)) theirs

theorem merge_eq_ok_iff {ours theirs merged : LineRecord} :
    ours.merge theirs = .ok merged ↔
      shapeFault? ours theirs = none ∧ ours.absorb theirs = merged := by
  unfold merge
  cases shapeFault? ours theirs <;> simp

end LineRecord

namespace RecordOp

/-- A change leaves whatever does not depend on the counters and branches of a record. -/
theorem frame_apply {α : Type} {f : LineRecord → α}
    (hf : ∀ record hits jumps switches, f { record with hits, jumps, switches } = f record)
    (edit : RecordOp) (record : LineRecord) : f (edit.apply record) = f record := by
  cases edit with
  | hitJump id taken =>
    simp only [apply, LineRecord.hitJump]
    split
    · exact hf record _ _ _
    · rfl
  | hitSwitch id key =>
    simp only [apply, LineRecord.hitSwitch]
    split
    · exact hf record _ _ _
    · rfl
  | addJump id =>
    simp only [apply, LineRecord.addJump]
    split
    · rfl
    · exact hf record _ _ _
  | addSwitch id keys =>
    simp only [apply, LineRecord.addSwitch]
    split
    · rfl
    · exact hf record _ _ _
  | merge theirs =>
    simp only [apply, LineRecord.merge]
    split
    · rfl
    · exact hf record _ _ _
  | _ => exact hf record _ _ _

theorem frame_applyAll {α : Type} {f : LineRecord → α}
    (hf : ∀ record hits jumps switches, f { record with hits, jumps, switches } = f record)
    (edits : List RecordOp) (record : LineRecord) : f (applyAll edits record) = f record := by
  induction edits generalizing record with
  | nil => rfl
  | cons edit rest ih => exact (ih _).trans (frame_apply hf edit record)

theorem line_apply (edit : RecordOp) (record : LineRecord) :
    (edit.apply record).line = record.line :=
  frame_apply (fun _ _ _ _ ↦ rfl) edit record

theorem line_applyAll (edits : List RecordOp) (record : LineRecord) :
    (applyAll edits record).line = record.line :=
  frame_applyAll (fun _ _ _ _ ↦ rfl) edits record

theorem signature_apply (edit : RecordOp) (record : LineRecord) :
    (edit.apply record).signature = record.signature :=
  frame_apply (fun _ _ _ _ ↦ rfl) edit record

theorem signature_applyAll (edits : List RecordOp) (record : LineRecord) :
    (applyAll edits record).signature = record.signature :=
  frame_applyAll (fun _ _ _ _ ↦ rfl) edits record

theorem sized_apply (edit : RecordOp) {record : LineRecord} (hsized : record.Sized) :
    (edit.apply record).Sized := by
  cases edit with
  | hitJump id taken =>
    simp only [apply, LineRecord.hitJump]
    split <;> exact hsized
  | hitSwitch id key =>
    simp only [apply, LineRecord.hitSwitch]
    split
    · next slot _ =>
      intro switch hswitch
      obtain ⟨other, hother⟩ := Array.mem_iff_getElem?.mp hswitch
      rw [Array.getElem?_modify] at hother
      split at hother
      · obtain ⟨old, hold, rfl⟩ := Option.map_eq_some_iff.mp hother
        exact SwitchRecord.sized_hit (hsized old (Array.mem_of_getElem? hold)) key
      · exact hsized switch (Array.mem_of_getElem? hother)
    · exact hsized
  | addJump id =>
    simp only [apply, LineRecord.addJump]
    split <;> exact hsized
  | addSwitch id keys =>
    simp only [apply, LineRecord.addSwitch]
    split
    · exact hsized
    · intro switch hswitch
      rcases Array.mem_push.mp hswitch with hold | rfl
      · exact hsized switch hold
      · exact SwitchRecord.sized_fresh id keys
  | merge theirs =>
    simp only [apply, LineRecord.merge]
    split
    · exact hsized
    · exact LineRecord.sized_absorb hsized theirs
  | _ => exact hsized

theorem sized_applyAll (edits : List RecordOp) {record : LineRecord} (hsized : record.Sized) :
    (applyAll edits record).Sized := by
  induction edits generalizing record with
  | nil => exact hsized
  | cons edit edits ih => exact ih (edit.sized_apply hsized)

end RecordOp

/-! ### Reading -/

/-- What is read as a switch has a counter for each arm, and no more arms than can be written. -/
theorem SwitchRecord.ensures_decode (id : UInt32) :
    Decoder.Ensures (SwitchRecord.decode id) fun switch ↦
      switch.id = id ∧ switch.Sized ∧ switch.keys.arity ≤ CaseKeys.maxArity := by
  refine Decoder.ensures_bind (Decoder.ensures_true _) fun keys _ ↦ ?_
  refine Decoder.ensures_bind (Decoder.ensures_true _) fun unmatched _ ↦ ?_
  split
  · exact Decoder.ensures_fail _ _
  · next harity =>
    refine Decoder.ensures_bind (Decoder.ensures_collect _ _) fun arms harms ↦
      Decoder.ensures_pure ⟨rfl, ?_, Nat.le_of_not_lt harity⟩
    simpa [SwitchRecord.Sized, CounterBank.size] using harms

theorem JumpRecord.ensures_decode (id : UInt32) :
    Decoder.Ensures (JumpRecord.decode id) fun jump ↦ jump.id = id :=
  Decoder.ensures_bind (Decoder.ensures_true _) fun _ _ ↦
    Decoder.ensures_bind (Decoder.ensures_true _) fun _ _ ↦ Decoder.ensures_pure rfl

/-- Each branch is read with its position as id. -/
theorem LineRecord.ensures_decodeBranches {α : Type} {decode : UInt32 → Decoder α}
    {property : UInt32 → α → Prop} (hdecode : ∀ id, Decoder.Ensures (decode id) (property id))
    (length : Nat) :
    Decoder.Ensures (LineRecord.decodeBranches decode length) fun branches ↦
      branches.size = length ∧ ∀ slot branch, branches[slot]? = some branch →
        property (UInt32.ofNat slot) branch := by
  let slots (round : Nat) (branches : Array α) : Prop :=
    branches.size = round ∧ ∀ slot branch, branches[slot]? = some branch →
      property (UInt32.ofNat slot) branch
  have hstep (round : Nat) (branches : Array α) (hslots : slots round branches) :
      Decoder.Ensures (do pure (branches.push (← decode (UInt32.ofNat branches.size))))
        (slots (round + 1)) := by
    obtain ⟨hsize, hbranches⟩ := hslots
    refine Decoder.ensures_bind (hdecode _) fun branch hbranch ↦
      Decoder.ensures_pure ⟨by rw [Array.size_push, hsize], fun slot other hother ↦ ?_⟩
    rw [Array.getElem?_push] at hother
    split at hother
    · next hslot =>
      cases hother
      exact hslot ▸ hbranch
    · exact hbranches slot other hother
  have hall := Decoder.ensures_iterate slots hstep length 0 ⟨Array.size_empty, by simp⟩
  rwa [Nat.zero_add] at hall

/-- The record is as reading leaves it: its ids are positions and its switches are sized. -/
structure LineRecord.AsRead (signature : String) (record : LineRecord) : Prop where
  signature_eq : record.signature = signature
  line_le : record.line ≤ highestLineNumber
  jumps_lt : record.jumps.size < UInt32.size
  switches_lt : record.switches.size < UInt32.size
  jump_id : ∀ slot jump, record.jumps[slot]? = some jump → jump.id = UInt32.ofNat slot
  switch : ∀ slot switch, record.switches[slot]? = some switch →
    switch.id = UInt32.ofNat slot ∧ switch.Sized ∧ switch.keys.arity ≤ CaseKeys.maxArity

theorem LineRecord.asRead_decode (signature : String) :
    Decoder.Ensures (LineRecord.decode signature) (AsRead signature) := by
  refine Decoder.ensures_bind (Decoder.ensures_true _) fun line _ ↦ ?_
  split
  · exact Decoder.ensures_fail _ _
  · next hline =>
    refine Decoder.ensures_bind (Decoder.ensures_true _) fun hits _ ↦ ?_
    refine Decoder.ensures_bind Decoder.ensures_count fun jumpCount hjumpCount ↦ ?_
    refine Decoder.ensures_bind (ensures_decodeBranches JumpRecord.ensures_decode _)
      fun jumps hjumps ↦ ?_
    refine Decoder.ensures_bind Decoder.ensures_count fun switchCount hswitchCount ↦ ?_
    refine Decoder.ensures_bind (ensures_decodeBranches SwitchRecord.ensures_decode _)
      fun switches hswitches ↦ Decoder.ensures_pure ?_
    exact {
      signature_eq := rfl
      line_le := UInt32.not_lt.mp hline
      jumps_lt := hjumps.1 ▸ hjumpCount
      switches_lt := hswitches.1 ▸ hswitchCount
      jump_id := hjumps.2
      switch := hswitches.2 }

theorem LineRecord.AsRead.sized {signature : String} {record : LineRecord}
    (hread : record.AsRead signature) : record.Sized := by
  intro switch hswitch
  obtain ⟨slot, hslot⟩ := Array.mem_iff_getElem?.mp hswitch
  exact (hread.switch slot switch hslot).2.1

theorem LineRecord.sized_decode (signature : String) :
    Decoder.Ensures (LineRecord.decode signature) LineRecord.Sized :=
  fun _ _ _ hdecode ↦ (asRead_decode signature hdecode).sized

theorem LineRecord.Reachable.sized {record : LineRecord} (hrecord : record.Reachable) :
    record.Sized := by
  induction hrecord with
  | fresh line signature => exact sized_fresh line signature
  | loaded hdecode => exact sized_decode _ hdecode
  | operated edit _ ih => exact edit.sized_apply ih

theorem SwitchRecord.Reachable.sized {switch : SwitchRecord} (hswitch : switch.Reachable) :
    switch.Sized := by
  induction hswitch with
  | fresh id keys => exact sized_fresh id keys
  | loaded hdecode => exact (ensures_decode _ hdecode).2.1
  | hit key _ ih => exact sized_hit ih key
  | merged theirs _ ih => exact sized_absorb ih theirs

end JvmCoverage
