import JvmCoverage.Proofs.Line.Touch
/-!
# Branches are found by their ids

A branch is usually declared under its position, so the position that equals an id is tried before
the row is searched. Nothing forces ids to be positions: they are declared in any order, jumps are
dropped from the end, and then either way can be the one that finds a branch. Both find the same
one, because no two branches of a row have the same id, and that in turn is so because a declaration
looks its id up first. `SearchesById` says that a look-up is the search of a row, and
`LineRecord.lookups_search_by_id` that the look-ups of every reachable record are, and what a
declaration does in either case.
-/

set_option autoImplicit false
set_option relaxedAutoImplicit false

namespace JvmCoverage

/-- At most one branch of the row has a given id, and the look-up finds it as a search by id
does. -/
structure SearchesById {α : Type} (idOf : α → UInt32) (branches : Array α)
    (lookup : UInt32 → Option α) : Prop where
  unique : ∀ {first second : Nat} {branch other : α}, branches[first]? = some branch →
    branches[second]? = some other → idOf branch = idOf other → first = second
  eq_find? : ∀ id, lookup id = branches.find? (idOf · = id)
  eq_none_iff : ∀ id, lookup id = none ↔ ∀ branch ∈ branches, idOf branch ≠ id
  eq_some_iff : ∀ id branch, lookup id = some branch ↔ branch ∈ branches ∧ idOf branch = id

section Rows

variable {α : Type} {idOf : α → UInt32} {branches : Array α}

/-- The position that equals the id and the search lead to the same branch. -/
theorem bind_branchSlot (hdistinct : (branches.toList.map idOf).Nodup) (id : UInt32) :
    (branchSlot idOf branches id).bind (branches[·]?) = branches.find? (idOf · = id) := by
  cases hslot : branchSlot idOf branches id with
  | none =>
    rw [Option.bind_none, eq_comm, Array.find?_eq_none]
    simpa using branchSlot_eq_none_iff.mp hslot
  | some slot =>
    obtain ⟨branch, hbranch, rfl⟩ := exists_of_branchSlot_eq_some hslot
    rw [Option.bind_some, hbranch, find?_eq_of_idOf_eq hdistinct (Array.mem_of_getElem? hbranch)]

theorem find?_idOf_eq_some_iff (hdistinct : (branches.toList.map idOf).Nodup) (id : UInt32)
    (branch : α) :
    branches.find? (idOf · = id) = some branch ↔ branch ∈ branches ∧ idOf branch = id := by
  constructor
  · intro hfound
    exact ⟨Array.mem_of_find?_eq_some hfound, by simpa using Array.find?_some hfound⟩
  · rintro ⟨hbranch, rfl⟩
    exact find?_eq_of_idOf_eq hdistinct hbranch

theorem searchesById_branchSlot (hdistinct : (branches.toList.map idOf).Nodup) :
    SearchesById idOf branches fun id ↦ (branchSlot idOf branches id).bind (branches[·]?) where
  unique := eq_of_idOf_eq hdistinct
  eq_find? := bind_branchSlot hdistinct
  eq_none_iff id := by
    rw [bind_branchSlot hdistinct, Array.find?_eq_none]
    simp
  eq_some_iff id branch := by
    rw [bind_branchSlot hdistinct]
    exact find?_idOf_eq_some_iff hdistinct id branch

/-- A branch that is put at the end is found under its id, and the others are found as before. -/
theorem bind_branchSlot_push (hdistinct : (branches.toList.map idOf).Nodup) (branch : α)
    (habsent : branchSlot idOf branches (idOf branch) = none) (id : UInt32) :
    (branchSlot idOf (branches.push branch) id).bind ((branches.push branch)[·]?) =
      if id = idOf branch then some branch
      else (branchSlot idOf branches id).bind (branches[·]?) := by
  have hafter := LineRecord.nodup_map_id_push hdistinct habsent
  rw [bind_branchSlot hafter, bind_branchSlot hdistinct]
  split_ifs with hid
  · exact (find?_idOf_eq_some_iff hafter id branch).mpr ⟨Array.mem_push_self, hid.symm⟩
  · have hlast : #[branch].find? (idOf · = id) = none := by
      rw [Array.find?_eq_none]
      simpa using Ne.symm hid
    rw [Array.push_eq_append, Array.find?_append, hlast, Option.or_none]

end Rows

namespace LineRecord

variable {record : LineRecord}

theorem Reachable.distinctIds (hrecord : record.Reachable) : record.DistinctIds := by
  induction hrecord with
  | fresh line signature => exact distinctIds_fresh line signature
  | loaded hdecode => exact distinctIds_decode _ hdecode
  | operated edit _ hdistinct => exact edit.distinctIds_apply hdistinct

/-- A jump that is new stands at the end of the row, and the other ids lead where they led. -/
theorem addJump_of_absent (hdistinct : record.DistinctIds) {id : UInt32}
    (habsent : record.jump? id = none) :
    record.addJump id = { record with jumps := record.jumps.push { id } } ∧
      ∀ other, (record.addJump id).jump? other =
        if other = id then some { id } else record.jump? other := by
  have hslot : branchSlot JumpRecord.id record.jumps id = none :=
    branchSlot_eq_none_of_absent (by rw [← jumpSlot, ← jump?, habsent]; simp)
  have hadded : record.addJump id = { record with jumps := record.jumps.push { id } } := by
    rw [addJump, habsent]
    rfl
  rw [hadded]
  exact ⟨rfl, bind_branchSlot_push hdistinct.jumps { id } hslot⟩

/-- A switch that is new stands at the end of the row, and the other ids lead where they led. -/
theorem addSwitch_of_absent (hdistinct : record.DistinctIds) {id : UInt32}
    (habsent : record.switch? id = none) (keys : CaseKeys) :
    record.addSwitch id keys = { record with switches := record.switches.push (.fresh id keys) } ∧
      ∀ other, (record.addSwitch id keys).switch? other =
        if other = id then some (.fresh id keys) else record.switch? other := by
  have hslot : branchSlot SwitchRecord.id record.switches id = none :=
    branchSlot_eq_none_of_absent (by rw [← switchSlot, ← switch?, habsent]; simp)
  have hadded : record.addSwitch id keys =
      { record with switches := record.switches.push (.fresh id keys) } := by
    rw [addSwitch, habsent]
    rfl
  rw [hadded]
  exact ⟨rfl, bind_branchSlot_push hdistinct.switches (.fresh id keys) hslot⟩

/-- Whatever was declared, dropped, hit, merged and read: no two jumps and no two switches of a
record have the same id, and a look-up finds what a search by id finds. A declaration of an id that
is there changes nothing, and one of an id that is not puts a branch that was never taken at the
end. -/
theorem lookups_search_by_id (hrecord : record.Reachable) :
    SearchesById JumpRecord.id record.jumps record.jump? ∧
      SearchesById SwitchRecord.id record.switches record.switch? ∧
      (∀ id, (record.jump? id ≠ none → record.addJump id = record) ∧
        (record.jump? id = none →
          let jump : JumpRecord := { id, taken := ⟨0⟩, fallen := ⟨0⟩ }
          record.addJump id = { record with jumps := record.jumps.push jump } ∧
            ∀ other, (record.addJump id).jump? other =
              if other = id then some jump else record.jump? other)) ∧
      ∀ id keys, (record.switch? id ≠ none → record.addSwitch id keys = record) ∧
        (record.switch? id = none →
          let switch : SwitchRecord :=
            { id, keys, unmatched := ⟨0⟩, arms := ⟨Array.replicate keys.arity ⟨0⟩⟩ }
          record.addSwitch id keys = { record with switches := record.switches.push switch } ∧
            ∀ other, (record.addSwitch id keys).switch? other =
              if other = id then some switch else record.switch? other) := by
  have hdistinct := hrecord.distinctIds
  refine ⟨searchesById_branchSlot hdistinct.jumps, searchesById_branchSlot hdistinct.switches,
    fun id ↦ ⟨fun hpresent ↦ ?_, addJump_of_absent hdistinct⟩,
    fun id keys ↦ ⟨fun hpresent ↦ ?_, fun habsent ↦ addSwitch_of_absent hdistinct habsent keys⟩⟩
  · exact if_pos (Option.isSome_iff_ne_none.mpr hpresent)
  · exact if_pos (Option.isSome_iff_ne_none.mpr hpresent)

/-- Jump 0 stands where a position says jump 1 should, jump 2 where it says so, and jump 7 was
dropped; the keys that a switch was declared with first are those that it has. -/
theorem lookups_search_by_id_of_dropped_jump :
    let edits : List RecordOp := [.addJump 5, .addJump 0, .addJump 2, .addJump 7, .dropLastJump,
      .hitJump 0 true, .addSwitch 1 (.listed [4, -4])]
    let record := RecordOp.applyAll edits { line := 3, signature := "m()V" }
    record.Reachable ∧ record.jump? 0 = record.jumps.find? (·.id = 0) ∧
      (record.jump? 0).map JumpRecord.taken = some ⟨1⟩ ∧
      (record.jump? 1 = none ↔ ∀ jump ∈ record.jumps, jump.id ≠ 1) ∧ record.jump? 7 = none ∧
      record.addSwitch 1 (.range 0 9) = record ∧
      (record.addJump 7).jump? 7 = some { id := 7, taken := ⟨0⟩, fallen := ⟨0⟩ } := by
  intro edits record
  have hrecord : record.Reachable := Reachable.applyAll (.fresh 3 "m()V") edits
  have habsent : record.jump? 7 = none := by decide +kernel
  obtain ⟨hjumps, -, haddJump, haddSwitch⟩ := lookups_search_by_id hrecord
  exact ⟨hrecord, hjumps.eq_find? 0, by decide +kernel, hjumps.eq_none_iff 1, habsent,
    (haddSwitch 1 (.range 0 9)).1 (by decide +kernel), ((haddJump 7).2 habsent).2 7⟩

end LineRecord

end JvmCoverage
