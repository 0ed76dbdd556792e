import JvmCoverage.Proofs.Line.Touch
import Mathlib.Data.UInt
/-!
# Every dispatch of a switch is counted once

A key selects an arm by its place: its first position in a list, or its distance from the lowest key
of a range. `CaseKeys.IsArmOf` says so without the search and the arithmetic of `CaseKeys.arm?`, and
`CaseKeys.arm?_eq_some_iff` that both agree, also for inverted ranges and at the ends of the 32-bit
integers. An arm that is selected is below `CaseKeys.arity`, which is the number of counters that a
switch has, whether it was made fresh or read. So a dispatch always finds its counter, and the
counters of a switch grow together by the number of dispatches
(`SwitchRecord.dispatches_counted_once`).
-/

set_option autoImplicit false
set_option relaxedAutoImplicit false

namespace JvmCoverage

namespace CaseKeys

variable {keys : CaseKeys} {key : Int32} {arm : Nat}

/-- The switch has an arm for the key. -/
def Covers : CaseKeys → Int32 → Prop
  | listed keys, key => key ∈ keys
  | range min max, key => min.toInt ≤ key.toInt ∧ key.toInt ≤ max.toInt

/-- The arm is the place of the key. -/
def IsArmOf : CaseKeys → Int32 → Nat → Prop
  | listed keys, key, arm => keys[arm]? = some key ∧ ∀ earlier < arm, keys[earlier]? ≠ some key
  | range min max, key, arm =>
    min.toInt ≤ key.toInt ∧ key.toInt ≤ max.toInt ∧ (arm : Int) = key.toInt - min.toInt

/-- No key is listed twice. -/
def Distinct : CaseKeys → Prop
  | listed keys => keys.Nodup
  | range _ _ => True

theorem arm?_range (min max key : Int32) :
    (range min max).arm? key =
      if min.toInt ≤ key.toInt ∧ key.toInt ≤ max.toInt then some (key.toInt - min.toInt).toNat
      else none := by
  simp only [arm?, Int32.le_iff_toInt_le]

theorem arm?_eq_some_iff : keys.arm? key = some arm ↔ keys.IsArmOf key arm := by
  cases keys with
  | listed keys =>
    rw [arm?, IsArmOf, List.idxOf?_eq_some_iff]
    constructor
    · rintro ⟨hlt, hkey, hfirst⟩
      refine ⟨List.getElem?_eq_some_iff.mpr ⟨hlt, hkey⟩, fun earlier hearlier heq ↦ ?_⟩
      obtain ⟨_, hsame⟩ := List.getElem?_eq_some_iff.mp heq
      exact hfirst earlier hearlier hsame
    · rintro ⟨hkey, hfirst⟩
      obtain ⟨hlt, hsame⟩ := List.getElem?_eq_some_iff.mp hkey
      refine ⟨hlt, hsame, fun earlier hearlier heq ↦ hfirst earlier hearlier ?_⟩
      exact List.getElem?_eq_some_iff.mpr ⟨Nat.lt_trans hearlier hlt, heq⟩
  | range min max =>
    rw [arm?_range, IsArmOf]
    split_ifs with hbounds
    · rw [Option.some_inj]
      omega
    · refine iff_of_false nofun fun harm ↦ hbounds ⟨harm.1, harm.2.1⟩

theorem arm?_eq_none_iff : keys.arm? key = none ↔ ¬ keys.Covers key := by
  cases keys with
  | listed keys => exact List.idxOf?_eq_none_iff
  | range min max =>
    rw [arm?_range, Covers]
    split_ifs with hbounds
    · exact iff_of_false nofun fun hnot ↦ hnot hbounds
    · exact iff_of_true rfl hbounds

/-- No key selects an arm past those that are counted. -/
theorem arm?_lt (harm : keys.arm? key = some arm) : arm < keys.arity := by
  rw [arm?_eq_some_iff] at harm
  cases keys with
  | listed keys => exact (List.getElem?_eq_some_iff.mp harm.1).1
  | range min max =>
    obtain ⟨hmin, hmax, harm⟩ := harm
    rw [arity]
    omega

theorem existsUnique_key (hdistinct : keys.Distinct) (harm : arm < keys.arity) :
    ∃! key, keys.arm? key = some arm := by
  simp only [arm?_eq_some_iff]
  cases keys with
  | listed keys =>
    refine ⟨keys[arm], ⟨List.getElem?_eq_getElem harm, fun earlier hearlier heq ↦ ?_⟩, ?_⟩
    · have hlt := Nat.lt_trans hearlier harm
      rw [← List.getElem?_eq_getElem harm] at heq
      exact Nat.ne_of_lt hearlier ((List.getElem?_inj hlt hdistinct).mp heq)
    · rintro other ⟨hother, -⟩
      rw [List.getElem?_eq_getElem harm] at hother
      exact (Option.some.inj hother).symm
  | range min max =>
    -- the key that lies `arm` above the lowest one is an integer of 32 bits
    have hmin := min.le_toInt
    have hmax := max.toInt_lt
    rw [arity] at harm
    have hkey : (Int32.ofInt (min.toInt + arm)).toInt = min.toInt + arm :=
      Int32.toInt_ofInt_of_le (by omega) (by omega)
    refine ⟨Int32.ofInt (min.toInt + arm), ?_, ?_⟩
    · show min.toInt ≤ (Int32.ofInt _).toInt ∧ (Int32.ofInt _).toInt ≤ max.toInt ∧ _
      rw [hkey]
      omega
    · rintro other ⟨-, -, hother⟩
      rw [← Int32.toInt_inj, hkey]
      omega

end CaseKeys

namespace SwitchRecord

variable {switch : SwitchRecord}

/-- The switch after dispatches. -/
def hitAll (dispatches : List Int32) (switch : SwitchRecord) : SwitchRecord :=
  dispatches.foldl hit switch

/-- What the counters of the switch hold together. -/
def total (switch : SwitchRecord) : UInt32 := switch.unmatched.value + switch.arms.values.sum

/-- Every counter grows by the number of dispatches that are for it. -/
theorem hitAll_eq_mapCounters (switch : SwitchRecord) (dispatches : List Int32) :
    switch.hitAll dispatches = switch.mapCounters fun arm? counter ↦
      counter.add (.ofNat (dispatches.countP (switch.keys.arm? · = arm?))) := by
  induction dispatches generalizing switch with
  | nil =>
    simp only [List.countP_nil, Counter.add_ofNat_zero, mapCounters_id]
    rfl
  | cons key rest ih =>
    have hkeys : (switch.hit key).keys = switch.keys := by
      rw [hit_eq]
      rfl
    refine (ih (switch.hit key)).trans ?_
    rw [hkeys, hit_eq, mapCounters_mapCounters]
    refine congrArg switch.mapCounters (funext fun arm? ↦ funext fun counter ↦ ?_)
    rw [add_countOnce, List.countP_cons]
    simp only [Option.some_inj, decide_eq_true_eq]

theorem sum_values_hit {bank : CounterBank} {slot : Nat} (hslot : slot < bank.size) :
    (bank.hit slot).values.sum = bank.values.sum + 1 := by
  have hlength : slot < bank.slots.toList.length := hslot
  have hsplit : bank.slots.toList =
      bank.slots.toList.take slot ++ bank.slots.toList[slot] :: bank.slots.toList.drop (slot + 1) :=
    by rw [List.getElem_cons_drop, List.take_append_drop]
  rw [CounterBank.values, CounterBank.values, CounterBank.hit, Array.toList_modify,
    List.modify_eq_take_cons_drop hlength]
  conv_rhs => rw [hsplit]
  simp only [List.map_append, List.map_cons, List.sum_append, List.sum_cons, Counter.hit]
  ac_rfl

theorem Sized.arm_lt (hsized : switch.Sized) {key : Int32} {arm : Nat}
    (harm : switch.keys.arm? key = some arm) : arm < switch.arms.size :=
  Nat.lt_of_lt_of_eq (CaseKeys.arm?_lt harm) hsized.symm

theorem total_hit (hsized : switch.Sized) (key : Int32) :
    (switch.hit key).total = switch.total + 1 := by
  unfold hit
  cases harm : switch.keys.arm? key with
  | none =>
    show switch.unmatched.value + 1 + switch.arms.values.sum = switch.total + 1
    rw [total]
    ac_rfl
  | some arm =>
    show switch.unmatched.value + (switch.arms.hit arm).values.sum = switch.total + 1
    rw [sum_values_hit (hsized.arm_lt harm), total]
    ac_rfl

theorem total_hitAll (hswitch : switch.Reachable) (dispatches : List Int32) :
    (switch.hitAll dispatches).total = switch.total + .ofNat dispatches.length := by
  induction dispatches generalizing switch with
  | nil => exact (UInt32.add_zero _).symm
  | cons key rest ih =>
    refine (ih (hswitch.hit key)).trans ?_
    rw [total_hit hswitch.sized, List.length_cons, UInt32.ofNat_add]
    show switch.total + 1 + .ofNat rest.length = switch.total + (.ofNat rest.length + 1)
    ac_rfl

/-- The counter that a dispatch is for is there. -/
theorem Sized.isSome_counter?_arm? (hsized : switch.Sized) (key : Int32) :
    (switch.counter? (switch.keys.arm? key)).isSome = true := by
  cases harm : switch.keys.arm? key with
  | none => rfl
  | some arm => simp [counter?, show arm < switch.arms.slots.size from hsized.arm_lt harm]

/-- A key selects the arm that is its place, and the default when it has no arm. Without repeats
every arm has one key. So each dispatch of a switch is one more in the counter of its arm, which is
there, and all counters together grow by the number of dispatches, modulo `2 ^ 32`. -/
theorem dispatches_counted_once :
    (∀ (keys : CaseKeys) (key : Int32),
      (∀ arm, keys.arm? key = some arm ↔ keys.IsArmOf key arm) ∧
      (∀ arm, keys.arm? key = some arm → arm < keys.arity) ∧
      ((keys.arm? key).isSome = true ↔ keys.Covers key)) ∧
    (∀ keys : CaseKeys, keys.Distinct → ∀ arm < keys.arity, ∃! key, keys.arm? key = some arm) ∧
    ∀ switch : SwitchRecord, switch.Reachable → ∀ dispatches : List Int32,
      (switch.hitAll dispatches).total = switch.total + .ofNat dispatches.length ∧
      (∀ arm?, (switch.hitAll dispatches).counter? arm? = (switch.counter? arm?).map
        (·.add (.ofNat (dispatches.countP (switch.keys.arm? · = arm?))))) ∧
      ∀ key, (switch.counter? (switch.keys.arm? key)).isSome = true := by
  refine ⟨fun keys key ↦ ⟨fun _ ↦ CaseKeys.arm?_eq_some_iff, fun _ ↦ CaseKeys.arm?_lt, ?_⟩,
    fun _ hdistinct _ ↦ CaseKeys.existsUnique_key hdistinct,
    fun switch hswitch dispatches ↦ ⟨total_hitAll hswitch dispatches, fun arm? ↦ ?_,
      hswitch.sized.isSome_counter?_arm?⟩⟩
  · rw [← not_iff_not, ← CaseKeys.arm?_eq_none_iff, Option.not_isSome_iff_eq_none]
  · rw [hitAll_eq_mapCounters, counter?_mapCounters]

/-- The third arm repeats the key of the first, so no dispatch is for it. -/
theorem dispatches_counted_once_of_repeated_key :
    let switch := (fresh 0 (.listed [7, 9, 7])).absorb (fresh 0 (.listed [7, 9, 7]))
    let dispatched := switch.hitAll [9, 7, 8]
    switch.Reachable ∧ dispatched.total = 3 ∧ dispatched.counter? (some 0) = some ⟨1⟩ ∧
      dispatched.counter? (some 2) = some ⟨0⟩ ∧ dispatched.counter? none = some ⟨1⟩ := by
  intro switch dispatched
  have hswitch : switch.Reachable := .merged _ (.fresh 0 (.listed [7, 9, 7]))
  obtain ⟨htotal, hcounters, -⟩ := dispatches_counted_once.2.2 switch hswitch [9, 7, 8]
  refine ⟨hswitch, htotal.trans (by decide), ?_, ?_, ?_⟩
  · exact (hcounters (some 0)).trans (by decide)
  · exact (hcounters (some 2)).trans (by decide)
  · exact (hcounters none).trans (by decide)

end SwitchRecord

end JvmCoverage
