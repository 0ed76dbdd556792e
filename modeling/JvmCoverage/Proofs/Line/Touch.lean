import JvmCoverage.Proofs.Line.Merge
import Mathlib.Data.List.Nodup
/-!
# Which counter of a record a hit is for

A hit names a jump or a switch by its id, and the record looks the id up: at the position that
equals it, then by a search. No two jumps of a record and no two switches have the same id, because
a declaration of an id that is there changes nothing (`RecordOp.distinctIds_apply`) and reading
makes ids of positions (`LineRecord.distinctIds_decode`). So a look-up finds the one branch with the
id, and a hit is one more in one counter: `LineRecord.mapCounters` changes every counter of a record
by its name, and `LineRecord.hit_eq`, `hitJump_eq` and `hitSwitch_eq` say that hits are such
changes.
-/

set_option autoImplicit false
set_option relaxedAutoImplicit false

namespace JvmCoverage

/-! ### Look-ups by id -/

section BranchSlot

variable {α : Type} {idOf : α → UInt32} {branches : Array α} {id : UInt32}

theorem branchSlot_eq_none_iff :
    branchSlot idOf branches id = none ↔ ∀ branch ∈ branches, idOf branch ≠ id := by
  unfold branchSlot
  split
  · next hposition =>
    obtain ⟨branch, hbranch, hid⟩ := (Option.any_eq_true _ _).mp hposition
    refine iff_of_false (Option.some_ne_none _) fun hnone ↦ ?_
    exact hnone branch (Array.mem_of_getElem? hbranch) (by simpa using hid)
  · simp [Array.findIdx?_eq_none_iff]

theorem exists_of_branchSlot_eq_some {slot : Nat}
    (hslot : branchSlot idOf branches id = some slot) :
    ∃ branch, branches[slot]? = some branch ∧ idOf branch = id := by
  unfold branchSlot at hslot
  split at hslot
  · next hposition =>
    obtain ⟨branch, hbranch, hid⟩ := (Option.any_eq_true _ _).mp hposition
    cases hslot
    exact ⟨branch, hbranch, by simpa using hid⟩
  · obtain ⟨hlt, hid, -⟩ := Array.findIdx?_eq_some_iff_getElem.mp hslot
    exact ⟨branches[slot], Array.getElem?_eq_getElem hlt, by simpa using hid⟩

theorem branchSlot_eq_none_of_absent
    (habsent : ¬ ((branchSlot idOf branches id).bind (branches[·]?)).isSome = true) :
    branchSlot idOf branches id = none := by
  cases hslot : branchSlot idOf branches id with
  | none => rfl
  | some slot =>
    obtain ⟨branch, hbranch, -⟩ := exists_of_branchSlot_eq_some hslot
    exact absurd (by simp [hslot, hbranch]) habsent

/-- Two branches at different positions have different ids. -/
theorem eq_of_idOf_eq (hdistinct : (branches.toList.map idOf).Nodup) {first second : Nat}
    {branch other : α} (hfirst : branches[first]? = some branch)
    (hsecond : branches[second]? = some other) (hid : idOf branch = idOf other) :
    first = second := by
  have hlength : first < (branches.toList.map idOf).length := by
    rw [List.length_map, Array.length_toList]
    exact (Array.getElem?_eq_some_iff.mp hfirst).1
  refine (List.getElem?_inj hlength hdistinct).mp ?_
  simp only [List.getElem?_map, Array.getElem?_toList, hfirst, hsecond, Option.map_some, hid]

/-- Whichever way the branch is found, it is the one with the id. -/
theorem modify_branchSlot (hdistinct : (branches.toList.map idOf).Nodup) (id : UInt32)
    (f : α → α) :
    ((branchSlot idOf branches id).elim branches fun slot ↦ branches.modify slot f) =
      branches.map fun branch ↦ if idOf branch = id then f branch else branch := by
  cases hslot : branchSlot idOf branches id with
  | none =>
    have hother := branchSlot_eq_none_iff.mp hslot
    refine ((Array.map_congr_left fun branch hbranch ↦ ?_).trans (Array.map_id' branches)).symm
    rw [if_neg (hother branch hbranch)]
  | some slot =>
    obtain ⟨found, hfound, hid⟩ := exists_of_branchSlot_eq_some hslot
    refine Array.ext_getElem? fun index ↦ ?_
    rw [Option.elim_some, Array.getElem?_modify, Array.getElem?_map]
    cases hbranch : branches[index]? with
    | none => simp
    | some branch =>
      by_cases hindex : slot = index
      · rw [hindex, hbranch] at hfound
        cases hfound
        simp [hindex, hid]
      · have hne : idOf branch ≠ id := fun heq ↦
          hindex (eq_of_idOf_eq hdistinct hfound hbranch (hid.trans heq.symm))
        simp [hindex, hne]

theorem find?_eq_of_idOf_eq (hdistinct : (branches.toList.map idOf).Nodup) {branch : α}
    (hbranch : branch ∈ branches) : branches.find? (idOf · = idOf branch) = some branch := by
  cases hfind : branches.find? (idOf · = idOf branch) with
  | none => simpa using Array.find?_eq_none.mp hfind branch hbranch
  | some found =>
    have hid : idOf found = idOf branch := by simpa using Array.find?_some hfind
    obtain ⟨first, hfirst⟩ := Array.mem_iff_getElem?.mp (Array.mem_of_find?_eq_some hfind)
    obtain ⟨second, hsecond⟩ := Array.mem_iff_getElem?.mp hbranch
    rw [eq_of_idOf_eq hdistinct hfirst hsecond hid, hsecond] at hfirst
    exact hfirst.symm

theorem find?_map_of_idOf (idOf : α → UInt32) {f : α → α}
    (hid : ∀ branch, idOf (f branch) = idOf branch) (branches : Array α) (id : UInt32) :
    (branches.map f).find? (idOf · = id) = (branches.find? (idOf · = id)).map f := by
  rw [Array.find?_map]
  simp only [Function.comp_def, hid]

end BranchSlot

/-! ### Counters by name -/

/-- A counter of a line record. A switch has a counter per arm, and one, named `none`, for the keys
that select no arm. -/
inductive LineCounter
  | hits
  | outcome (jump : UInt32) (taken : Bool)
  | arm (switch : UInt32) (arm? : Option Nat)
  deriving DecidableEq

/-- Counts once in the counter that is addressed, if there is one. -/
def countOnce {α : Type} [DecidableEq α] (addressed : Option α) (name : α) (counter : Counter) :
    Counter :=
  if addressed = some name then counter.hit else counter

section CountOnce

variable {α β : Type} [DecidableEq α] [DecidableEq β]

theorem countOnce_of_ne {addressed : Option α} {name : α} (hne : addressed ≠ some name) :
    countOnce addressed name = fun counter ↦ counter :=
  funext fun _ ↦ if_neg hne

@[simp] theorem countOnce_none : countOnce (none : Option α) = fun _ counter ↦ counter :=
  funext fun _ ↦ countOnce_of_ne nofun

theorem countOnce_map {f : α → β} (hf : f.Injective) (addressed : Option α) (name : α) :
    countOnce (addressed.map f) (f name) = countOnce addressed name := by
  funext counter
  simp [countOnce, hf.eq_iff]

@[simp] theorem Counter.add_ofNat_zero (counter : Counter) : counter.add (.ofNat 0) = counter := by
  simp [add]

/-- Counting once before `count` hits is counting one hit more where it is addressed. -/
theorem add_countOnce (addressed : Option α) (name : α) (counter : Counter) (count : Nat) :
    (countOnce addressed name counter).add (.ofNat count) =
      counter.add (.ofNat (count + if addressed = some name then 1 else 0)) := by
  unfold countOnce
  split
  · refine congrArg Counter.mk ?_
    rw [UInt32.ofNat_add]
    show counter.value + 1 + .ofNat count = counter.value + (.ofNat count + 1)
    ac_rfl
  · rfl

end CountOnce

namespace CounterBank

/-- Changes every counter of a bank by its slot. -/
def mapCounters (f : Nat → Counter → Counter) (bank : CounterBank) : CounterBank :=
  ⟨bank.slots.mapIdx f⟩

@[simp] theorem size_mapCounters (f : Nat → Counter → Counter) (bank : CounterBank) :
    (bank.mapCounters f).size = bank.size :=
  Array.size_mapIdx

@[simp] theorem mapCounters_id (bank : CounterBank) :
    bank.mapCounters (fun _ counter ↦ counter) = bank := by
  refine congrArg CounterBank.mk (Array.ext_getElem? fun slot ↦ ?_)
  rw [Array.getElem?_mapIdx, Option.map_id']

@[simp] theorem mapCounters_mapCounters (f g : Nat → Counter → Counter) (bank : CounterBank) :
    (bank.mapCounters f).mapCounters g =
      bank.mapCounters fun slot counter ↦ g slot (f slot counter) := by
  simp [mapCounters, Function.comp_def]

theorem hit_of_size_le {bank : CounterBank} {slot : Nat} (hslot : bank.size ≤ slot) :
    bank.hit slot = bank := by
  refine congrArg CounterBank.mk (Array.ext_getElem? fun other ↦ ?_)
  rw [Array.getElem?_modify]
  split_ifs with heq
  · rw [Array.getElem?_eq_none (heq ▸ hslot)]
    rfl
  · rfl

theorem hit_eq (bank : CounterBank) (slot : Nat) :
    bank.hit slot = bank.mapCounters (countOnce (some slot)) := by
  refine congrArg CounterBank.mk (Array.ext_getElem? fun other ↦ ?_)
  rw [Array.getElem?_modify, Array.getElem?_mapIdx]
  by_cases hslot : slot = other <;> cases bank.slots[other]? <;> simp [countOnce, hslot]

end CounterBank

namespace JumpRecord

def mapCounters (f : Bool → Counter → Counter) (jump : JumpRecord) : JumpRecord :=
  { jump with taken := f true jump.taken, fallen := f false jump.fallen }

@[simp] theorem mapCounters_id (jump : JumpRecord) :
    jump.mapCounters (fun _ counter ↦ counter) = jump := rfl

theorem hit_eq (jump : JumpRecord) (taken : Bool) :
    jump.hit taken = jump.mapCounters (countOnce (some taken)) := by
  cases taken <;> rfl

end JumpRecord

namespace SwitchRecord

def mapCounters (f : Option Nat → Counter → Counter) (switch : SwitchRecord) : SwitchRecord :=
  { switch with
    unmatched := f none switch.unmatched
    arms := switch.arms.mapCounters fun arm ↦ f (some arm) }

@[simp] theorem mapCounters_id (switch : SwitchRecord) :
    switch.mapCounters (fun _ counter ↦ counter) = switch := by
  simp [mapCounters]

theorem mapCounters_mapCounters (f g : Option Nat → Counter → Counter) (switch : SwitchRecord) :
    (switch.mapCounters f).mapCounters g =
      switch.mapCounters fun arm? counter ↦ g arm? (f arm? counter) := by
  simp [mapCounters]

/-- A dispatch is for the arm that the key selects, and for the default when it selects none. -/
theorem hit_eq (switch : SwitchRecord) (key : Int32) :
    switch.hit key = switch.mapCounters (countOnce (some (switch.keys.arm? key))) := by
  unfold hit mapCounters
  cases switch.keys.arm? key with
  | none =>
    have harms (arm : Nat) :
        countOnce (some (none : Option Nat)) (some arm) = fun counter ↦ counter :=
      countOnce_of_ne nofun
    simp [harms, countOnce]
  | some arm =>
    have harms (other : Nat) :
        countOnce (some (some arm)) (some other) = countOnce (some arm) other :=
      countOnce_map (fun _ _ ↦ Option.some.inj) (some arm) other
    simp [harms, countOnce_of_ne, CounterBank.hit_eq]

/-- The counter of a switch that has the name, if there is one. -/
def counter? (switch : SwitchRecord) : Option Nat → Option Counter
  | none => some switch.unmatched
  | some arm => switch.arms.slots[arm]?

theorem counter?_mapCounters (f : Option Nat → Counter → Counter) (switch : SwitchRecord)
    (arm? : Option Nat) :
    (switch.mapCounters f).counter? arm? = (switch.counter? arm?).map (f arm?) := by
  cases arm? with
  | none => rfl
  | some arm => simp [counter?, mapCounters, CounterBank.mapCounters]

end SwitchRecord

namespace LineRecord

/-- Changes every counter of a record by its name, and nothing else. -/
def mapCounters (f : LineCounter → Counter → Counter) (record : LineRecord) : LineRecord :=
  { record with
    hits := f .hits record.hits
    jumps := record.jumps.map fun jump ↦ jump.mapCounters fun taken ↦ f (.outcome jump.id taken)
    switches := record.switches.map fun switch ↦
      switch.mapCounters fun arm? ↦ f (.arm switch.id arm?) }

/-- The counter that an outcome of a jump is for. -/
def jumpCounter? (record : LineRecord) (id : UInt32) (taken : Bool) : Option LineCounter :=
  (record.jumps.find? (·.id = id)).map fun _ ↦ .outcome id taken

/-- The counter that a dispatch of a switch is for. -/
def switchCounter? (record : LineRecord) (id : UInt32) (key : Int32) : Option LineCounter :=
  (record.switches.find? (·.id = id)).map fun switch ↦ .arm id (switch.keys.arm? key)

variable {record other : LineRecord}

@[simp] theorem mapCounters_id (record : LineRecord) :
    record.mapCounters (fun _ counter ↦ counter) = record := by
  simp [mapCounters]

@[simp] theorem mapCounters_mapCounters (f g : LineCounter → Counter → Counter)
    (record : LineRecord) :
    (record.mapCounters f).mapCounters g =
      record.mapCounters fun name counter ↦ g name (f name counter) := by
  simp [mapCounters, JumpRecord.mapCounters, SwitchRecord.mapCounters, Function.comp_def]

@[simp] theorem shape_mapCounters (f : LineCounter → Counter → Counter) (record : LineRecord) :
    (record.mapCounters f).shape = record.shape := by
  simp [mapCounters, JumpRecord.mapCounters, SwitchRecord.mapCounters, shape, Function.comp_def]

theorem find?_jumps_mapCounters (f : LineCounter → Counter → Counter) (record : LineRecord)
    (id : UInt32) :
    (record.mapCounters f).jumps.find? (·.id = id) = (record.jumps.find? (·.id = id)).map
      fun jump ↦ jump.mapCounters fun taken ↦ f (.outcome jump.id taken) :=
  find?_map_of_idOf JumpRecord.id (fun _ ↦ by rfl) _ _

theorem find?_switches_mapCounters (f : LineCounter → Counter → Counter) (record : LineRecord)
    (id : UInt32) :
    (record.mapCounters f).switches.find? (·.id = id) = (record.switches.find? (·.id = id)).map
      fun switch ↦ switch.mapCounters fun arm? ↦ f (.arm switch.id arm?) :=
  find?_map_of_idOf SwitchRecord.id (fun _ ↦ by rfl) _ _

/-- The counter of a record that has the name, if there is one. -/
def counter? (record : LineRecord) : LineCounter → Option Counter
  | .hits => some record.hits
  | .outcome id taken => (record.jumps.find? (·.id = id)).map fun jump ↦
    if taken then jump.taken else jump.fallen
  | .arm id arm? => (record.switches.find? (·.id = id)).bind (·.counter? arm?)

theorem counter?_mapCounters (f : LineCounter → Counter → Counter) (record : LineRecord)
    (name : LineCounter) :
    (record.mapCounters f).counter? name = (record.counter? name).map (f name) := by
  cases name with
  | hits => rfl
  | outcome id taken =>
    rw [counter?, counter?, find?_jumps_mapCounters]
    cases hfound : record.jumps.find? (·.id = id) with
    | none => rfl
    | some jump =>
      have hid : jump.id = id := by simpa using Array.find?_some hfound
      cases taken <;> simp [JumpRecord.mapCounters, hid]
  | arm id arm? =>
    rw [counter?, counter?, find?_switches_mapCounters]
    cases hfound : record.switches.find? (·.id = id) with
    | none => rfl
    | some switch =>
      have hid : switch.id = id := by simpa using Array.find?_some hfound
      simp [SwitchRecord.counter?_mapCounters, hid]

@[simp] theorem jumpCounter?_mapCounters (f : LineCounter → Counter → Counter)
    (record : LineRecord) (id : UInt32) (taken : Bool) :
    (record.mapCounters f).jumpCounter? id taken = record.jumpCounter? id taken := by
  rw [jumpCounter?, find?_jumps_mapCounters, Option.map_map]
  rfl

@[simp] theorem switchCounter?_mapCounters (f : LineCounter → Counter → Counter)
    (record : LineRecord) (id : UInt32) (key : Int32) :
    (record.mapCounters f).switchCounter? id key = record.switchCounter? id key := by
  rw [switchCounter?, find?_switches_mapCounters, Option.map_map]
  rfl

/-! ### Ids that are distinct -/

/-- No two jumps and no two switches have the same id. -/
structure DistinctIds (record : LineRecord) : Prop where
  jumps : (record.jumps.toList.map JumpRecord.id).Nodup
  switches : (record.switches.toList.map SwitchRecord.id).Nodup

theorem distinctIds_fresh (line : UInt32) (signature : String) :
    DistinctIds { line, signature } where
  jumps := List.nodup_nil
  switches := List.nodup_nil

theorem DistinctIds.of_shape (hdistinct : record.DistinctIds)
    (hshape : other.shape = record.shape) : other.DistinctIds where
  jumps := by
    have hjumps : other.shape.jumpIds = record.shape.jumpIds := by rw [hshape]
    exact (congrArg List.Nodup hjumps).mpr hdistinct.jumps
  switches := by
    have hswitches : other.shape.switches.map Prod.fst = record.shape.switches.map Prod.fst := by
      rw [hshape]
    simp only [shape, List.map_map] at hswitches
    exact (congrArg List.Nodup hswitches).mpr hdistinct.switches

/-! ### Hits -/

theorem hit_eq (record : LineRecord) :
    record.hit = record.mapCounters (countOnce (some .hits)) := by
  have hjump (id : UInt32) (taken : Bool) :
      countOnce (some LineCounter.hits) (.outcome id taken) = fun counter ↦ counter :=
    countOnce_of_ne nofun
  have harm (id : UInt32) (arm? : Option Nat) :
      countOnce (some LineCounter.hits) (.arm id arm?) = fun counter ↦ counter :=
    countOnce_of_ne nofun
  simp [hit, mapCounters, hjump, harm, countOnce]

theorem hitJump_eq_map (hdistinct : record.DistinctIds) (id : UInt32) (taken : Bool) :
    record.hitJump id taken = { record with
      jumps := record.jumps.map fun jump ↦ if jump.id = id then jump.hit taken else jump } := by
  rw [← modify_branchSlot hdistinct.jumps id, hitJump, jumpSlot]
  cases branchSlot JumpRecord.id record.jumps id <;> rfl

theorem hitSwitch_eq_map (hdistinct : record.DistinctIds) (id : UInt32) (key : Int32) :
    record.hitSwitch id key = { record with
      switches := record.switches.map fun switch ↦
        if switch.id = id then switch.hit key else switch } := by
  rw [← modify_branchSlot hdistinct.switches id, hitSwitch, switchSlot]
  cases branchSlot SwitchRecord.id record.switches id <;> rfl

theorem eq_of_jumpCounter?_eq_some {id : UInt32} {taken : Bool} {name : LineCounter}
    (hname : record.jumpCounter? id taken = some name) : name = .outcome id taken := by
  obtain ⟨jump, -, rfl⟩ := Option.map_eq_some_iff.mp hname
  rfl

theorem exists_of_switchCounter?_eq_some {id : UInt32} {key : Int32} {name : LineCounter}
    (hname : record.switchCounter? id key = some name) :
    ∃ switch ∈ record.switches, switch.id = id ∧ name = .arm id (switch.keys.arm? key) := by
  obtain ⟨switch, hfound, rfl⟩ := Option.map_eq_some_iff.mp hname
  exact ⟨switch, Array.mem_of_find?_eq_some hfound, by simpa using Array.find?_some hfound, rfl⟩

/-- An outcome of a jump is one more in the counter that it is for. -/
theorem hitJump_eq (hdistinct : record.DistinctIds) (id : UInt32) (taken : Bool) :
    record.hitJump id taken = record.mapCounters (countOnce (record.jumpCounter? id taken)) := by
  have hother (name : LineCounter) (hname : name ≠ .outcome id taken) :
      countOnce (record.jumpCounter? id taken) name = fun counter ↦ counter :=
    countOnce_of_ne fun heq ↦ hname (eq_of_jumpCounter?_eq_some heq)
  have hjump (jump : JumpRecord) (hjump : jump ∈ record.jumps) :
      (if jump.id = id then jump.hit taken else jump) = jump.mapCounters fun outcome ↦
        countOnce (record.jumpCounter? id taken) (.outcome jump.id outcome) := by
    split_ifs with hid
    · have hfound := find?_eq_of_idOf_eq hdistinct.jumps hjump
      rw [hid] at hfound
      have hcount (outcome : Bool) :
          countOnce (record.jumpCounter? id taken) (.outcome id outcome) =
            countOnce (some taken) outcome := by
        rw [jumpCounter?, hfound]
        exact countOnce_map (fun _ _ ↦ by simp) (some taken) outcome
      simp only [hid, hcount, JumpRecord.hit_eq]
    · have hcount (outcome : Bool) := hother (.outcome jump.id outcome) fun heq ↦
        hid (LineCounter.outcome.inj heq).1
      simp only [hcount, JumpRecord.mapCounters_id]
  have harm (switch : UInt32) (arm? : Option Nat) := hother (.arm switch arm?) nofun
  rw [hitJump_eq_map hdistinct, mapCounters, hother .hits nofun]
  simp only [harm, SwitchRecord.mapCounters_id, Array.map_id']
  rw [Array.map_congr_left hjump]

/-- A dispatch of a switch is one more in the counter that it is for. -/
theorem hitSwitch_eq (hdistinct : record.DistinctIds) (id : UInt32) (key : Int32) :
    record.hitSwitch id key =
      record.mapCounters (countOnce (record.switchCounter? id key)) := by
  have hother (name : LineCounter) (hname : ∀ arm?, name ≠ .arm id arm?) :
      countOnce (record.switchCounter? id key) name = fun counter ↦ counter := by
    refine countOnce_of_ne fun heq ↦ ?_
    obtain ⟨switch, -, -, rfl⟩ := exists_of_switchCounter?_eq_some heq
    exact hname _ rfl
  have hswitch (switch : SwitchRecord) (hswitch : switch ∈ record.switches) :
      (if switch.id = id then switch.hit key else switch) = switch.mapCounters fun arm? ↦
        countOnce (record.switchCounter? id key) (.arm switch.id arm?) := by
    split_ifs with hid
    · have hfound := find?_eq_of_idOf_eq hdistinct.switches hswitch
      rw [hid] at hfound
      have hcount (arm? : Option Nat) :
          countOnce (record.switchCounter? id key) (.arm id arm?) =
            countOnce (some (switch.keys.arm? key)) arm? := by
        rw [switchCounter?, hfound]
        exact countOnce_map (fun _ _ ↦ by simp) (some (switch.keys.arm? key)) arm?
      simp only [hid, hcount, SwitchRecord.hit_eq]
    · have hcount (arm? : Option Nat) := hother (.arm switch.id arm?) fun other heq ↦
        hid (LineCounter.arm.inj heq).1
      simp only [hcount, SwitchRecord.mapCounters_id]
  have hjump (jump : UInt32) (taken : Bool) := hother (.outcome jump taken) nofun
  rw [hitSwitch_eq_map hdistinct, mapCounters, hother .hits nofun]
  simp only [hjump, JumpRecord.mapCounters_id, Array.map_id']
  rw [Array.map_congr_left hswitch]

/-! ### Ids stay distinct -/

theorem nodup_map_id_push {α : Type} {idOf : α → UInt32} {branches : Array α} {branch : α}
    (hdistinct : (branches.toList.map idOf).Nodup)
    (hnew : branchSlot idOf branches (idOf branch) = none) :
    ((branches.push branch).toList.map idOf).Nodup := by
  rw [Array.toList_push, List.map_append, List.nodup_append]
  refine ⟨hdistinct, List.pairwise_singleton _ _, fun id hid other hother ↦ ?_⟩
  obtain ⟨old, hold, rfl⟩ := List.mem_map.mp hid
  cases List.mem_singleton.mp hother
  exact branchSlot_eq_none_iff.mp hnew old (Array.mem_toList_iff.mp hold)

/-- Ids that are positions are distinct. -/
theorem nodup_map_id_of_positions {α : Type} {idOf : α → UInt32} {branches : Array α}
    (hsize : branches.size < UInt32.size)
    (hposition : ∀ slot branch, branches[slot]? = some branch → idOf branch = .ofNat slot) :
    (branches.toList.map idOf).Nodup := by
  have hids : branches.toList.map idOf = (List.range branches.size).map UInt32.ofNat := by
    refine List.ext_getElem (by simp) fun slot hslot _ ↦ ?_
    rw [List.length_map, Array.length_toList] at hslot
    simpa using hposition slot _ (Array.getElem?_eq_getElem hslot)
  rw [hids]
  refine List.Nodup.map_on (fun first hfirst second hsecond heq ↦ ?_) List.nodup_range
  rw [List.mem_range] at hfirst hsecond
  have hnumbers := congrArg UInt32.toNat heq
  rwa [UInt32.toNat_ofNat_of_lt' (Nat.lt_trans hfirst hsize),
    UInt32.toNat_ofNat_of_lt' (Nat.lt_trans hsecond hsize)] at hnumbers

theorem distinctIds_decode (signature : String) :
    Decoder.Ensures (LineRecord.decode signature) DistinctIds := by
  intro input record rest hdecode
  have hread := asRead_decode signature hdecode
  exact {
    jumps := nodup_map_id_of_positions hread.jumps_lt hread.jump_id
    switches := nodup_map_id_of_positions hread.switches_lt fun slot switch hswitch ↦
      (hread.switch slot switch hswitch).1 }

end LineRecord

/-- No change of a record gives an id twice. -/
theorem RecordOp.distinctIds_apply (edit : RecordOp) {record : LineRecord}
    (hdistinct : record.DistinctIds) : (edit.apply record).DistinctIds := by
  cases edit with
  | hit => exact ⟨hdistinct.jumps, hdistinct.switches⟩
  | hitJump id taken =>
    refine hdistinct.of_shape ?_
    rw [apply, LineRecord.hitJump_eq hdistinct, LineRecord.shape_mapCounters]
  | hitSwitch id key =>
    refine hdistinct.of_shape ?_
    rw [apply, LineRecord.hitSwitch_eq hdistinct, LineRecord.shape_mapCounters]
  | addHits count => exact ⟨hdistinct.jumps, hdistinct.switches⟩
  | addJump id =>
    rw [apply, LineRecord.addJump]
    split
    · exact hdistinct
    · next hnew =>
      exact ⟨LineRecord.nodup_map_id_push hdistinct.jumps
        (branchSlot_eq_none_of_absent hnew), hdistinct.switches⟩
  | addSwitch id keys =>
    rw [apply, LineRecord.addSwitch]
    split
    · exact hdistinct
    · next hnew =>
      exact ⟨hdistinct.jumps, LineRecord.nodup_map_id_push hdistinct.switches
        (branchSlot_eq_none_of_absent hnew)⟩
  | dropLastJump =>
    refine ⟨?_, hdistinct.switches⟩
    rw [apply, LineRecord.dropLastJump, Array.toList_pop, List.map_dropLast]
    exact hdistinct.jumps.sublist (List.dropLast_sublist _)
  | merge theirs =>
    cases hmerge : record.merge theirs with
    | error error => simpa [apply, hmerge, Except.toOption] using hdistinct
    | ok merged =>
      obtain ⟨-, rfl⟩ := LineRecord.merge_eq_ok_iff.mp hmerge
      simp only [apply, hmerge]
      exact hdistinct.of_shape (LineRecord.shape_absorb record theirs)

end JvmCoverage
