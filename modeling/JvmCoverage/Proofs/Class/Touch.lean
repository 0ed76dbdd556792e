import JvmCoverage.Proofs.Class.RecordInvariant
import JvmCoverage.Proofs.Line.Dispatch
/-!
# Hits are counted exactly, in any order

The instrumented program tells a store of four kinds of hits, which `Touch` lists. Each hit is for
one counter, `ClassStore.counterOf?`, or for none when it names a line, a branch or a slot of the
mask that is not there. The counters of a store have names, and `ClassStore.mapCounters` changes
each of them by its name and nothing else. A hit is such a change (`ClassStore.apply_touch`), hits
do not change what others are for, and so hits add up: `ClassStore.applyAll_touches` says that each
counter has grown by the number of hits that are for it, whatever their order.
-/

set_option autoImplicit false
set_option relaxedAutoImplicit false

namespace JvmCoverage

/-- A counter of a class: of a line record, or of the mask. -/
inductive ClassCounter
  | ofLine (line : UInt32) (name : LineCounter)
  | mask (slot : Nat)
  deriving DecidableEq

/-- A hit from inside the instrumented program. -/
inductive Touch
  | hitLine (line : UInt32)
  | hitJump (line id : UInt32) (taken : Bool)
  | hitSwitch (line id : UInt32) (key : Int32)
  | hitMask (line : UInt32)

namespace Touch

def apply : Touch → ClassStore → ClassStore
  | hitLine line, store => store.hitLine line
  | hitJump line id taken, store => store.hitJump line id taken
  | hitSwitch line id key, store => store.hitSwitch line id key
  | hitMask line, store => store.hitMask line

/-- The store after hits. -/
def applyAll (touches : List Touch) (store : ClassStore) : ClassStore :=
  touches.foldl (fun store touch ↦ touch.apply store) store

theorem reachable_apply (touch : Touch) {store : ClassStore} (hstore : store.Reachable) :
    (touch.apply store).Reachable := by
  cases touch with
  | hitLine line => exact .operated (.hitLine line) hstore nofun
  | hitJump line id taken => exact .operated (.hitJump line id taken) hstore nofun
  | hitSwitch line id key => exact .operated (.hitSwitch line id key) hstore nofun
  | hitMask line => exact .operated (.hitMask line) hstore nofun

end Touch

theorem recordInvariant_distinctIds : RecordInvariant LineRecord.DistinctIds where
  fresh := LineRecord.distinctIds_fresh
  apply edit _ := edit.distinctIds_apply
  decode := LineRecord.distinctIds_decode

/-! ### The counters of a class -/

namespace LineRecord

variable {record : LineRecord} {id : UInt32} {name : LineCounter}

theorem isSome_counter?_of_jumpCounter? {taken : Bool}
    (hname : record.jumpCounter? id taken = some name) : (record.counter? name).isSome = true := by
  obtain ⟨jump, hjump, rfl⟩ := Option.map_eq_some_iff.mp hname
  simp [counter?, hjump]

theorem isSome_counter?_of_switchCounter? (hsized : record.Sized) {key : Int32}
    (hname : record.switchCounter? id key = some name) : (record.counter? name).isSome = true := by
  obtain ⟨switch, hswitch, rfl⟩ := Option.map_eq_some_iff.mp hname
  rw [counter?, hswitch, Option.bind_some]
  exact (hsized switch (Array.mem_of_find?_eq_some hswitch)).isSome_counter?_arm? key

end LineRecord

namespace ClassStore

variable {store : ClassStore}

/-- Changes every counter of a store by its name, and nothing else. -/
def mapCounters (f : ClassCounter → Counter → Counter) (store : ClassStore) : ClassStore :=
  { store with
    table := store.table.mapKeyed fun line record ↦
      record.mapCounters fun name ↦ f (.ofLine line name)
    mask := store.mask.map (·.mapCounters fun slot ↦ f (.mask slot)) }

/-- The counter of a store that has the name, if there is one. -/
def counter? (store : ClassStore) : ClassCounter → Option Counter
  | .ofLine line name => (store.line? line).bind (·.counter? name)
  | .mask slot => store.mask.bind (·.slots[slot]?)

/-- The counter that a hit is for. A dispatch of a switch is for the arm that its key selects, or
for the default. -/
def counterOf? (store : ClassStore) : Touch → Option ClassCounter
  | .hitLine line => (store.line? line).map fun _ ↦ .ofLine line .hits
  | .hitJump line id taken => (store.line? line).bind fun record ↦
    (record.jumpCounter? id taken).map (.ofLine line)
  | .hitSwitch line id key => (store.line? line).bind fun record ↦
    (record.switchCounter? id key).map (.ofLine line)
  | .hitMask line => store.mask.bind fun mask ↦
    if line.toNat < mask.size then some (.mask line.toNat) else none

theorem line?_mapCounters (f : ClassCounter → Counter → Counter) (store : ClassStore)
    (line : UInt32) :
    (store.mapCounters f).line? line =
      (store.line? line).map (·.mapCounters fun name ↦ f (.ofLine line name)) :=
  LineTable.find?_mapKeyed store.table _ line

theorem counter?_mapCounters (f : ClassCounter → Counter → Counter) (store : ClassStore)
    (name : ClassCounter) :
    (store.mapCounters f).counter? name = (store.counter? name).map (f name) := by
  cases name with
  | ofLine line name =>
    rw [counter?, line?_mapCounters, counter?]
    cases store.line? line with
    | none => rfl
    | some record => exact record.counter?_mapCounters _ name
  | mask slot =>
    simp only [counter?, mapCounters]
    cases store.mask <;> simp [CounterBank.mapCounters]

/-- Counting does not change which counters there are. -/
theorem counterOf?_mapCounters (f : ClassCounter → Counter → Counter) (store : ClassStore)
    (touch : Touch) : (store.mapCounters f).counterOf? touch = store.counterOf? touch := by
  cases touch with
  | hitLine line =>
    rw [counterOf?, counterOf?, line?_mapCounters]
    cases store.line? line <;> rfl
  | hitJump line id taken =>
    rw [counterOf?, counterOf?, line?_mapCounters]
    cases store.line? line <;> simp
  | hitSwitch line id key =>
    rw [counterOf?, counterOf?, line?_mapCounters]
    cases store.line? line <;> simp
  | hitMask line =>
    rw [counterOf?, counterOf?, mapCounters]
    cases store.mask <;> simp

@[simp] theorem mapCounters_id (store : ClassStore) :
    store.mapCounters (fun _ counter ↦ counter) = store := by
  simp [mapCounters]

@[simp] theorem mapCounters_mapCounters (f g : ClassCounter → Counter → Counter)
    (store : ClassStore) :
    (store.mapCounters f).mapCounters g =
      store.mapCounters fun name counter ↦ g name (f name counter) := by
  simp [mapCounters, Function.comp_def]

/-- Nothing but the table changes with a change of the counters of records. -/
theorem mapCounters_of_mask_eq {f : ClassCounter → Counter → Counter}
    (hmask : ∀ slot, f (.mask slot) = fun counter ↦ counter) (store : ClassStore) :
    store.mapCounters f = { store with
      table := store.table.mapKeyed fun line record ↦
        record.mapCounters fun name ↦ f (.ofLine line name) } := by
  simp [mapCounters, hmask]

/-! ### One hit -/

/-- A change of one record is a change of all that leaves the others alone. -/
theorem modify_eq_mapKeyed (hstore : store.WellFormed) {line : UInt32}
    {f : LineRecord → LineRecord} {g : UInt32 → LineRecord → LineRecord}
    (hline : ∀ other record, (g other record).line = record.line)
    (hf : ∀ record, store.line? line = some record → f record = g line record)
    (hothers : ∀ other record, other ≠ line → g other record = record) :
    store.table.modify line f = store.table.mapKeyed g := by
  have hmodified := LineTable.filed_modify hstore.filed fun record hrecord ↦
    (congrArg LineRecord.line (hf record hrecord)).trans (hline line record)
  refine hmodified.eq_of_find?_eq (LineTable.filed_mapKeyed hstore.filed hline)
    (by cases store.table <;> rfl) fun other ↦ ?_
  rw [LineTable.find?_modify, LineTable.find?_mapKeyed]
  split_ifs with hother
  · subst hother
    exact Option.map_congr hf
  · have hsame : g other = fun record ↦ record := funext fun record ↦ hothers other record hother
    rw [hsame, Option.map_id']

/-- A hit on a record changes a counter of the store at the line of the record only. -/
theorem modifyLine_eq_mapCounters (hstore : store.WellFormed) {line : UInt32}
    {f : LineRecord → LineRecord} {name? : LineRecord → Option LineCounter}
    (hf : ∀ record, store.line? line = some record →
      f record = record.mapCounters (countOnce (name? record))) :
    store.modifyLine line f = store.mapCounters
      (countOnce ((store.line? line).bind fun record ↦ (name? record).map (.ofLine line))) := by
  have hothers (other : ClassCounter) (hother : ∀ name, other ≠ .ofLine line name) :
      countOnce ((store.line? line).bind fun record ↦ (name? record).map (.ofLine line)) other =
        fun counter ↦ counter := by
    refine countOnce_of_ne fun haddressed ↦ ?_
    obtain ⟨record, -, hname⟩ := Option.bind_eq_some_iff.mp haddressed
    obtain ⟨name, -, rfl⟩ := Option.map_eq_some_iff.mp hname
    exact hother name rfl
  rw [mapCounters_of_mask_eq fun slot ↦ hothers (.mask slot) nofun]
  refine congrArg (fun table ↦ { store with table }) (modify_eq_mapKeyed hstore ?_ ?_ ?_)
  · exact fun _ _ ↦ rfl
  · intro record hrecord
    have hcount (name : LineCounter) := countOnce_map
      (f := ClassCounter.ofLine line) (fun _ _ ↦ by simp) (name? record) name
    simp only [hf record hrecord, hrecord, Option.bind_some, hcount]
  · intro other record hne
    have hcount (name : LineCounter) := hothers (.ofLine other name) fun _ heq ↦
      hne (ClassCounter.ofLine.inj heq).1
    simp only [hcount, LineRecord.mapCounters_id]

theorem hitMask_eq_mapCounters (store : ClassStore) (line : UInt32) :
    store.hitMask line = store.mapCounters (countOnce (store.counterOf? (.hitMask line))) := by
  cases hmask : store.mask with
  | none =>
    rw [counterOf?, hmask, Option.bind_none, countOnce_none, mapCounters_id, hitMask, hmask,
      Option.map_none, ← hmask]
  | some mask =>
    by_cases hslot : line.toNat < mask.size
    · have hcounter : store.counterOf? (.hitMask line) = some (.mask line.toNat) := by
        simp [counterOf?, hmask, hslot]
      have hlines (other : UInt32) (name : LineCounter) :
          countOnce (some (ClassCounter.mask line.toNat)) (.ofLine other name) =
            fun counter ↦ counter :=
        countOnce_of_ne nofun
      have hslots (slot : Nat) :
          countOnce (some (ClassCounter.mask line.toNat)) (.mask slot) =
            countOnce (some line.toNat) slot :=
        countOnce_map (fun _ _ ↦ ClassCounter.mask.inj) (some line.toNat) slot
      rw [hcounter, mapCounters]
      simp only [hlines, hslots, hitMask, hmask, LineRecord.mapCounters_id,
        LineTable.mapKeyed_id, CounterBank.hit_eq]
    · have hcounter : store.counterOf? (.hitMask line) = none := by
        simp [counterOf?, hmask, hslot]
      rw [hcounter, countOnce_none, mapCounters_id, hitMask, hmask, Option.map_some,
        CounterBank.hit_of_size_le (Nat.not_lt.mp hslot), ← hmask]

/-- A hit is one more in the counter that it is for. -/
theorem apply_touch (hstore : store.Reachable) (touch : Touch) :
    touch.apply store = store.mapCounters (countOnce (store.counterOf? touch)) := by
  have hdistinct := recordInvariant_distinctIds.of_reachable hstore
  cases touch with
  | hitLine line =>
    have hname : (store.counterOf? (.hitLine line)) = (store.line? line).bind fun _ ↦
        (some LineCounter.hits).map (.ofLine line) := by
      rw [counterOf?]
      cases store.line? line <;> rfl
    rw [hname]
    exact modifyLine_eq_mapCounters hstore.wellFormed fun record _ ↦ record.hit_eq
  | hitJump line id taken =>
    exact modifyLine_eq_mapCounters hstore.wellFormed fun record hrecord ↦
      LineRecord.hitJump_eq (hdistinct line record hrecord) id taken
  | hitSwitch line id key =>
    exact modifyLine_eq_mapCounters hstore.wellFormed fun record hrecord ↦
      LineRecord.hitSwitch_eq (hdistinct line record hrecord) id key
  | hitMask line => exact hitMask_eq_mapCounters store line

/-! ### Any number of hits -/

/-- How many of the hits are for the counter. -/
def callsFor (store : ClassStore) (touches : List Touch) (name : ClassCounter) : Nat :=
  touches.countP (store.counterOf? · = some name)

/-- Hits add up counter by counter. -/
theorem applyAll_eq_mapCounters (hstore : store.Reachable) (touches : List Touch) :
    Touch.applyAll touches store = store.mapCounters fun name counter ↦
      counter.add (.ofNat (store.callsFor touches name)) := by
  induction touches generalizing store with
  | nil =>
    simp only [callsFor, List.countP_nil, Counter.add_ofNat_zero, mapCounters_id]
    rfl
  | cons touch rest ih =>
    have hcounters (other : Touch) :
        (touch.apply store).counterOf? other = store.counterOf? other := by
      rw [apply_touch hstore, counterOf?_mapCounters]
    have hcalls (name : ClassCounter) :
        (touch.apply store).callsFor rest name = store.callsFor rest name := by
      simp only [callsFor, hcounters]
    refine (ih (touch.reachable_apply hstore)).trans ?_
    simp only [hcalls]
    rw [apply_touch hstore, mapCounters_mapCounters]
    refine congrArg store.mapCounters (funext fun name ↦ funext fun counter ↦ ?_)
    rw [add_countOnce, callsFor, callsFor, List.countP_cons]
    simp only [decide_eq_true_eq]

/-- The counter that a hit is for is there. -/
theorem isSome_counter?_of_counterOf? (hstore : store.WellFormed) {touch : Touch}
    {name : ClassCounter} (hname : store.counterOf? touch = some name) :
    (store.counter? name).isSome = true := by
  cases touch with
  | hitLine line =>
    obtain ⟨record, hrecord, rfl⟩ := Option.map_eq_some_iff.mp hname
    simp [counter?, LineRecord.counter?, hrecord]
  | hitJump line id taken =>
    obtain ⟨record, hrecord, haddressed⟩ := Option.bind_eq_some_iff.mp hname
    obtain ⟨counter, hcounter, rfl⟩ := Option.map_eq_some_iff.mp haddressed
    rw [counter?, hrecord, Option.bind_some]
    exact LineRecord.isSome_counter?_of_jumpCounter? hcounter
  | hitSwitch line id key =>
    obtain ⟨record, hrecord, haddressed⟩ := Option.bind_eq_some_iff.mp hname
    obtain ⟨counter, hcounter, rfl⟩ := Option.map_eq_some_iff.mp haddressed
    rw [counter?, hrecord, Option.bind_some]
    exact LineRecord.isSome_counter?_of_switchCounter? (hstore.sized hrecord) hcounter
  | hitMask line =>
    obtain ⟨mask, hmask, hslot⟩ := Option.bind_eq_some_iff.mp hname
    split_ifs at hslot with hlt
    obtain rfl := Option.some.inj hslot
    simp [counter?, hmask, show line.toNat < mask.slots.size from hlt]

/-- Every counter grows by the number of hits that are for it, modulo `2 ^ 32`, and nothing else
changes. A hit that is for a counter finds it there, one that is for none does nothing, and the
order of the hits does not matter. -/
theorem applyAll_touches (hstore : store.Reachable) (touches : List Touch) :
    (Touch.applyAll touches store = store.mapCounters fun name counter ↦
        counter.add (.ofNat (store.callsFor touches name))) ∧
      (∀ name, (Touch.applyAll touches store).counter? name =
        (store.counter? name).map (·.add (.ofNat (store.callsFor touches name)))) ∧
      (∀ touch name, store.counterOf? touch = some name → (store.counter? name).isSome = true) ∧
      Touch.applyAll (touches.filter fun touch ↦ (store.counterOf? touch).isSome) store =
        Touch.applyAll touches store ∧
      ∀ others, touches.Perm others →
        Touch.applyAll others store = Touch.applyAll touches store := by
  have hsum := applyAll_eq_mapCounters hstore
  refine ⟨hsum touches, fun name ↦ ?_, fun _ _ ↦ isSome_counter?_of_counterOf? hstore.wellFormed,
    ?_, fun others hperm ↦ ?_⟩
  · rw [hsum, counter?_mapCounters]
  · rw [hsum, hsum]
    refine congrArg store.mapCounters (funext fun name ↦ funext fun counter ↦ ?_)
    have hcalls : store.callsFor (touches.filter fun touch ↦ (store.counterOf? touch).isSome) name =
        store.callsFor touches name := by
      rw [callsFor, List.countP_filter, callsFor]
      refine List.countP_congr fun touch _ ↦ ?_
      cases store.counterOf? touch <;> simp
    rw [hcalls]
  · rw [hsum, hsum]
    refine congrArg store.mapCounters (funext fun name ↦ funext fun counter ↦ ?_)
    rw [callsFor, callsFor, hperm.countP_eq]

/-- Of six hits on a dense store with a mask, two name a line and a jump that are not there. -/
theorem applyAll_touches_of_dense :
    let store := ClassOp.applyAll [.ensureLine 3 "m()V" [.addJump 0, .addSwitch 0 (.listed [7, 9])],
      .openMask 5, .densify] { name := "C" }
    let touches : List Touch := [.hitSwitch 3 0 9, .hitJump 3 0 true, .hitLine 4, .hitMask 3,
      .hitSwitch 3 0 8, .hitJump 3 1 true]
    store.Reachable ∧ Touch.applyAll touches.reverse store = Touch.applyAll touches store ∧
      (Touch.applyAll touches store).counter? (.ofLine 3 (.arm 0 (some 1))) = some ⟨1⟩ ∧
      (Touch.applyAll touches store).counter? (.ofLine 3 (.arm 0 none)) = some ⟨1⟩ ∧
      (Touch.applyAll touches store).counter? (.ofLine 3 .hits) = some ⟨0⟩ := by
  intro store touches
  have hstore : store.Reachable := .applyAll (.fresh "C") (by simp)
  obtain ⟨-, hcounters, -, -, hpermuted⟩ := applyAll_touches hstore touches
  refine ⟨hstore, hpermuted touches.reverse touches.reverse_perm.symm, ?_, ?_, ?_⟩
  · exact (hcounters _).trans (by decide +kernel)
  · exact (hcounters _).trans (by decide +kernel)
  · exact (hcounters _).trans (by decide +kernel)

end ClassStore

end JvmCoverage
