import JvmCoverage.Instruction
import JvmCoverage.Proofs.Line.RoundTrip
/-!
# Declaring branches on a line

`LineRecord.declare` is what an instruction adds to the record of its line, and
`LineRecord.dropJumps` is what a filter takes from it again. A branch is declared under the number
of branches of its kind, so ids stay positions (`LineRecord.Positional.declare`), also when jumps
are dropped from the end. As long as the line has fewer jumps than there are ids, the id of a new
jump is not in use, and the jump is found under it (`LineRecord.Positional.jump?_eq`).

`LineRecord.GrowsTo` says that a record got nothing but further branches: its owner, its counts and
the branches that it had are still there, and stand where they stood.
-/

set_option autoImplicit false
set_option relaxedAutoImplicit false

namespace JvmCoverage

namespace Instruction

/-- The event is a jump with two outcomes. -/
def isConditionalJump : Instruction → Bool
  | .jump kind _ => kind.isConditional
  | _ => false

theorem countP_isConditionalJump_cons (instruction : Instruction) (rest : List Instruction) :
    (instruction :: rest).countP isConditionalJump =
      instruction.isConditionalJump.toNat + rest.countP isConditionalJump := by
  rw [List.countP_cons, Nat.add_comm]
  cases instruction.isConditionalJump <;> rfl

/-- The keys that the event dispatches on, when it is a switch. -/
def switchKeys? : Instruction → Option CaseKeys
  | .tableSwitch min max => some (.range min max)
  | .lookupSwitch keys => some (.listed keys)
  | _ => none

end Instruction

namespace LineRecord

variable {record later : LineRecord}

/-- The record with the branch that an event on its line declares. -/
def declare (record : LineRecord) : Instruction → LineRecord
  | .jump kind _ =>
    if kind.isConditional then record.addJump (UInt32.ofNat record.jumps.size) else record
  | .tableSwitch min max => record.addSwitch (UInt32.ofNat record.switches.size) (.range min max)
  | .lookupSwitch keys => record.addSwitch (UInt32.ofNat record.switches.size) (.listed keys)
  | _ => record

theorem declare_of_isConditionalJump (record : LineRecord) {instruction : Instruction}
    (hconditional : instruction.isConditionalJump = true) :
    record.declare instruction = record.addJump (UInt32.ofNat record.jumps.size) := by
  cases instruction with
  | jump kind target => exact if_pos hconditional
  | _ => cases hconditional

/-- The record without the jumps that were declared last. -/
def dropJumps (record : LineRecord) (count : Nat) : LineRecord :=
  { record with jumps := (record.jumps.toList.take (record.jumps.size - count)).toArray }

@[simp] theorem size_jumps_dropJumps (record : LineRecord) (count : Nat) :
    (record.dropJumps count).jumps.size = record.jumps.size - count := by
  simp [dropJumps]

theorem dropJumps_zero (record : LineRecord) : record.dropJumps 0 = record := by
  rw [dropJumps, Nat.sub_zero, ← Array.length_toList, List.take_length, Array.toArray_toList]

theorem dropJumps_dropLastJump (record : LineRecord) (count : Nat) :
    record.dropLastJump.dropJumps count = record.dropJumps (count + 1) := by
  have hkept : record.jumps.pop.toList.take (record.jumps.pop.size - count) =
      record.jumps.toList.take (record.jumps.size - (count + 1)) := by
    rw [Array.toList_pop, Array.size_pop, List.dropLast_eq_take, List.take_take,
      Array.length_toList]
    congr 1
    omega
  rw [dropJumps, dropJumps, dropLastJump, hkept]

theorem getElem?_jumps_dropJumps (record : LineRecord) (count slot : Nat) :
    (record.dropJumps count).jumps[slot]? =
      if slot < record.jumps.size - count then record.jumps[slot]? else none := by
  rw [dropJumps, List.getElem?_toArray, List.getElem?_take, Array.getElem?_toList]

/-- A jump that is left stands where it stood. -/
theorem jump_of_dropJumps {count slot : Nat} {jump : JumpRecord}
    (hjump : (record.dropJumps count).jumps[slot]? = some jump) :
    record.jumps[slot]? = some jump := by
  rw [getElem?_jumps_dropJumps] at hjump
  split at hjump
  · exact hjump
  · cases hjump

/-- A jump is dropped when it stands too far back. -/
theorem jumps_dropJumps_ne_iff {slot : Nat} {jump : JumpRecord}
    (hjump : record.jumps[slot]? = some jump) (count : Nat) :
    (record.dropJumps count).jumps[slot]? ≠ some jump ↔ record.jumps.size - count ≤ slot := by
  rw [getElem?_jumps_dropJumps, hjump]
  split_ifs with hkept
  · exact iff_of_false (fun hne ↦ hne rfl) (Nat.not_le.mpr hkept)
  · exact iff_of_true (Option.some_ne_none _).symm (Nat.le_of_not_lt hkept)

/-! ### Ids -/

/-- In a row whose ids are positions, the length of the row is the id of no branch. -/
theorem branchSlot_size {α : Type} {idOf : α → UInt32} {branches : Array α}
    (hids : ∀ slot branch, branches[slot]? = some branch → idOf branch = UInt32.ofNat slot)
    (hsize : branches.size < UInt32.size) :
    branchSlot idOf branches (UInt32.ofNat branches.size) = none := by
  have hother (branch : α) (hbranch : branch ∈ branches) :
      idOf branch ≠ UInt32.ofNat branches.size := by
    obtain ⟨slot, hslot, rfl⟩ := Array.mem_iff_getElem.mp hbranch
    intro heq
    rw [hids slot _ (Array.getElem?_eq_getElem hslot)] at heq
    have hnat := congrArg UInt32.toNat heq
    rw [UInt32.toNat_ofNat_of_lt' (Nat.lt_trans hslot hsize),
      UInt32.toNat_ofNat_of_lt' hsize] at hnat
    omega
  have hnone : branches.findIdx? (idOf · = UInt32.ofNat branches.size) = none := by
    rw [Array.findIdx?_eq_none_iff]
    simpa using hother
  rw [branchSlot, UInt32.toNat_ofNat_of_lt' hsize, Array.getElem?_eq_none (Nat.le_refl _), hnone]
  rfl

namespace Positional

/-- The id of a slot leads to the slot. -/
theorem jumpSlot_eq (hpositional : record.Positional) {slot : Nat} {jump : JumpRecord}
    (hjump : record.jumps[slot]? = some jump) (hslot : slot < UInt32.size) :
    record.jumpSlot (UInt32.ofNat slot) = some slot := by
  rw [jumpSlot, branchSlot, UInt32.toNat_ofNat_of_lt' hslot, hjump, Option.any_some,
    hpositional.jump_id slot jump hjump, if_pos (decide_eq_true rfl)]

theorem jump?_eq (hpositional : record.Positional) {slot : Nat} {jump : JumpRecord}
    (hjump : record.jumps[slot]? = some jump) (hslot : slot < UInt32.size) :
    record.jump? (UInt32.ofNat slot) = some jump := by
  rw [jump?, hpositional.jumpSlot_eq hjump hslot, Option.bind_some, hjump]

/-- The number of jumps of a line is the id of none of them. -/
theorem jump?_size (hpositional : record.Positional) (hsize : record.jumps.size < UInt32.size) :
    record.jump? (UInt32.ofNat record.jumps.size) = none := by
  rw [jump?, jumpSlot, branchSlot_size hpositional.jump_id hsize]
  rfl

/-- The number of switches of a line is the id of none of them. -/
theorem switch?_size (hpositional : record.Positional)
    (hsize : record.switches.size < UInt32.size) :
    record.switch? (UInt32.ofNat record.switches.size) = none := by
  rw [switch?, switchSlot, branchSlot_size hpositional.switch_id hsize]
  rfl

theorem addJump (hpositional : record.Positional) :
    (record.addJump (UInt32.ofNat record.jumps.size)).Positional := by
  unfold LineRecord.addJump
  split
  · exact hpositional
  · refine ⟨fun slot jump hjump ↦ ?_, hpositional.switch_id⟩
    rw [Array.getElem?_push] at hjump
    split at hjump
    · next hslot =>
      cases hjump
      rw [hslot]
    · exact hpositional.jump_id slot jump hjump

theorem addSwitch (hpositional : record.Positional) (keys : CaseKeys) :
    (record.addSwitch (UInt32.ofNat record.switches.size) keys).Positional := by
  unfold LineRecord.addSwitch
  split
  · exact hpositional
  · refine ⟨hpositional.jump_id, fun slot switch hswitch ↦ ?_⟩
    rw [Array.getElem?_push] at hswitch
    split at hswitch
    · next hslot =>
      cases hswitch
      rw [hslot]
      rfl
    · exact hpositional.switch_id slot switch hswitch

theorem declare (hpositional : record.Positional) (instruction : Instruction) :
    (record.declare instruction).Positional := by
  unfold LineRecord.declare
  split
  · split
    · exact hpositional.addJump
    · exact hpositional
  · exact hpositional.addSwitch _
  · exact hpositional.addSwitch _
  · exact hpositional

theorem dropJumps (hpositional : record.Positional) (count : Nat) :
    (record.dropJumps count).Positional where
  jump_id slot jump hjump := hpositional.jump_id slot jump (jump_of_dropJumps hjump)
  switch_id := hpositional.switch_id

end Positional

theorem positional_fresh (line : UInt32) (signature : String) :
    Positional { line, signature } := ⟨by simp, by simp⟩

theorem addJump_of_positional (hpositional : record.Positional)
    (hsize : record.jumps.size < UInt32.size) :
    record.addJump (UInt32.ofNat record.jumps.size) =
      { record with jumps := record.jumps.push { id := UInt32.ofNat record.jumps.size } } := by
  rw [addJump, hpositional.jump?_size hsize]
  rfl

theorem addSwitch_of_positional (hpositional : record.Positional)
    (hsize : record.switches.size < UInt32.size) (keys : CaseKeys) :
    record.addSwitch (UInt32.ofNat record.switches.size) keys =
      { record with
        switches := record.switches.push
          (.fresh (UInt32.ofNat record.switches.size) keys) } := by
  rw [addSwitch, hpositional.switch?_size hsize]
  rfl

theorem size_jumps_addSwitch (record : LineRecord) (id : UInt32) (keys : CaseKeys) :
    (record.addSwitch id keys).jumps.size = record.jumps.size := by
  unfold addSwitch
  split <;> rfl

/-- A line has one jump more after a conditional jump, and as many as before after anything else. -/
theorem size_jumps_declare (hpositional : record.Positional) (instruction : Instruction)
    (hroom : record.jumps.size + instruction.isConditionalJump.toNat ≤ UInt32.size) :
    (record.declare instruction).jumps.size =
      record.jumps.size + instruction.isConditionalJump.toNat := by
  cases instruction with
  | jump kind target =>
    cases hkind : kind.isConditional with
    | false => simp [declare, Instruction.isConditionalJump, hkind]
    | true =>
      simp only [Instruction.isConditionalJump, hkind, Bool.toNat_true] at hroom ⊢
      simp only [declare, hkind, if_true, addJump_of_positional hpositional hroom, Array.size_push]
  | tableSwitch min max => exact record.size_jumps_addSwitch _ _
  | lookupSwitch keys => exact record.size_jumps_addSwitch _ _
  | _ => rfl

/-! ### Growing -/

/-- The later record has everything that the record has, and may have further branches. -/
structure GrowsTo (record later : LineRecord) : Prop where
  line_eq : later.line = record.line
  signature_eq : later.signature = record.signature
  hits_eq : later.hits = record.hits
  jumps_prefix : record.jumps.toList <+: later.jumps.toList
  switches_prefix : record.switches.toList <+: later.switches.toList

namespace GrowsTo

theorem refl (record : LineRecord) : record.GrowsTo record :=
  ⟨rfl, rfl, rfl, List.prefix_rfl, List.prefix_rfl⟩

theorem trans {middle : LineRecord} (hfirst : record.GrowsTo middle)
    (hsecond : middle.GrowsTo later) : record.GrowsTo later where
  line_eq := hsecond.line_eq.trans hfirst.line_eq
  signature_eq := hsecond.signature_eq.trans hfirst.signature_eq
  hits_eq := hsecond.hits_eq.trans hfirst.hits_eq
  jumps_prefix := hfirst.jumps_prefix.trans hsecond.jumps_prefix
  switches_prefix := hfirst.switches_prefix.trans hsecond.switches_prefix

theorem size_jumps_le (hgrows : record.GrowsTo later) : record.jumps.size ≤ later.jumps.size :=
  hgrows.jumps_prefix.length_le

/-- A branch that the record has is found at its slot later. -/
theorem jump_eq (hgrows : record.GrowsTo later) {slot : Nat} {jump : JumpRecord}
    (hjump : record.jumps[slot]? = some jump) : later.jumps[slot]? = some jump := by
  rw [← Array.getElem?_toList] at hjump ⊢
  obtain ⟨further, heq⟩ := hgrows.jumps_prefix
  rw [← heq, List.getElem?_append_left (List.getElem?_eq_some_iff.mp hjump).1, hjump]

theorem addJump (record : LineRecord) (id : UInt32) : record.GrowsTo (record.addJump id) := by
  unfold LineRecord.addJump
  split
  · exact refl record
  · exact ⟨rfl, rfl, rfl, by simp, List.prefix_rfl⟩

theorem addSwitch (record : LineRecord) (id : UInt32) (keys : CaseKeys) :
    record.GrowsTo (record.addSwitch id keys) := by
  unfold LineRecord.addSwitch
  split
  · exact refl record
  · exact ⟨rfl, rfl, rfl, List.prefix_rfl, by simp⟩

theorem declare (record : LineRecord) (instruction : Instruction) :
    record.GrowsTo (record.declare instruction) := by
  unfold LineRecord.declare
  split
  · split
    · exact addJump record _
    · exact refl record
  · exact addSwitch record _ _
  · exact addSwitch record _ _
  · exact refl record

/-- What is dropped from the end was not there at first. -/
theorem dropJumps (hgrows : record.GrowsTo later) {count : Nat}
    (hsize : record.jumps.size ≤ later.jumps.size - count) :
    record.GrowsTo (later.dropJumps count) :=
  { hgrows with jumps_prefix := List.prefix_take_iff.mpr ⟨hgrows.jumps_prefix, hsize⟩ }

end GrowsTo

/-! ### Rows of further branches -/

/-- The record with so many further jumps and with a further switch for each of the keys, none of
them ever taken. -/
def extended (record : LineRecord) (jumps : Nat) (keys : List CaseKeys) : LineRecord :=
  { record with
    jumps := record.jumps ++
      ((List.range jumps).map fun slot ↦
        { id := UInt32.ofNat (record.jumps.size + slot) : JumpRecord }).toArray
    switches := record.switches ++
      (keys.mapIdx fun slot keys ↦
        SwitchRecord.fresh (UInt32.ofNat (record.switches.size + slot)) keys).toArray }

variable {jumps : Nat} {keys : List CaseKeys}

theorem extended_nothing (record : LineRecord) : record.extended 0 [] = record := by
  simp [extended]

@[simp] theorem size_jumps_extended (record : LineRecord) (jumps : Nat) (keys : List CaseKeys) :
    (record.extended jumps keys).jumps.size = record.jumps.size + jumps := by
  simp [extended]

@[simp] theorem size_switches_extended (record : LineRecord) (jumps : Nat)
    (keys : List CaseKeys) :
    (record.extended jumps keys).switches.size = record.switches.size + keys.length := by
  simp [extended]

theorem Positional.extended (hpositional : record.Positional) (jumps : Nat)
    (keys : List CaseKeys) : (record.extended jumps keys).Positional where
  jump_id slot jump hjump := by
    rw [LineRecord.extended, Array.getElem?_append] at hjump
    split at hjump
    · exact hpositional.jump_id slot jump hjump
    · simp only [List.getElem?_toArray, List.getElem?_map, Option.map_eq_some_iff,
        List.getElem?_eq_some_iff, List.getElem_range] at hjump
      obtain ⟨_, ⟨_, rfl⟩, rfl⟩ := hjump
      exact congrArg UInt32.ofNat (by omega)
  switch_id slot switch hswitch := by
    rw [LineRecord.extended, Array.getElem?_append] at hswitch
    split at hswitch
    · exact hpositional.switch_id slot switch hswitch
    · simp only [List.getElem?_toArray, List.getElem?_mapIdx, Option.map_eq_some_iff] at hswitch
      obtain ⟨_, -, rfl⟩ := hswitch
      exact congrArg UInt32.ofNat (by omega)

/-- What an event declares stands at the end of the rows, as long as there are ids. -/
theorem declare_extended (hpositional : record.Positional) (instruction : Instruction)
    (hjumps : record.jumps.size + jumps + instruction.isConditionalJump.toNat ≤ UInt32.size)
    (hswitches : record.switches.size +
      (keys ++ instruction.switchKeys?.toList).length ≤ UInt32.size) :
    (record.extended jumps keys).declare instruction =
      record.extended (jumps + instruction.isConditionalJump.toNat)
        (keys ++ instruction.switchKeys?.toList) := by
  have hrows := hpositional.extended jumps keys
  have hswitch (more : CaseKeys)
      (hsize : record.switches.size + (keys ++ [more]).length ≤ UInt32.size) :
      (record.extended jumps keys).addSwitch
          (UInt32.ofNat (record.extended jumps keys).switches.size) more =
        record.extended jumps (keys ++ [more]) := by
    rw [List.length_append, List.length_singleton] at hsize
    rw [addSwitch_of_positional hrows (by rw [size_switches_extended]; omega),
      size_switches_extended]
    simp [extended, List.mapIdx_append]
  cases instruction with
  | jump kind target =>
    cases hkind : kind.isConditional with
    | false => simp [declare, Instruction.isConditionalJump, Instruction.switchKeys?, hkind]
    | true =>
      simp only [Instruction.isConditionalJump, hkind, Bool.toNat_true] at hjumps ⊢
      simp only [declare, hkind, if_true]
      rw [addJump_of_positional hrows (by rw [size_jumps_extended]; omega), size_jumps_extended]
      simp [extended, List.range_succ, Instruction.switchKeys?]
  | tableSwitch min max => exact hswitch _ hswitches
  | lookupSwitch listed => exact hswitch _ hswitches
  | _ => simp [declare, Instruction.isConditionalJump, Instruction.switchKeys?]

/-- What is dropped are the jumps that were declared last. -/
theorem dropJumps_extended (record : LineRecord) {count : Nat} (hcount : count ≤ jumps)
    (keys : List CaseKeys) :
    (record.extended jumps keys).dropJumps count = record.extended (jumps - count) keys := by
  have hkept : record.jumps.size + jumps - count = record.jumps.size + (jumps - count) := by omega
  have hold : record.jumps.toList.take (record.jumps.size + (jumps - count)) =
      record.jumps.toList := List.take_of_length_le (Nat.le_add_right _ _)
  rw [dropJumps, size_jumps_extended, hkept]
  simp [extended, List.take_append, ← List.map_take, List.take_range, hold]

end LineRecord

end JvmCoverage
