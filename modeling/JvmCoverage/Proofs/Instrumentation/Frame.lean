import JvmCoverage.Proofs.Instrumentation.SharedLines
/-!
# What a pass leaves alone

A pass makes records for the lines that are marked, declares branches on them and retracts. It does
nothing to its store that is not made of `ClassStore.ensureLine` and `ClassStore.restructureLine`,
so whatever these two keep, a whole pass keeps: `PassInvariant` is a property with that reason for
it, and `PassInvariant.instrumentAll` carries it over the methods of a class. The mask of the class
is such a property.

Neither do the counts of a line change (`ClassPass.hits_instrumentAll`), as long as no method drops
the line.
-/

set_option autoImplicit false
set_option relaxedAutoImplicit false

namespace JvmCoverage

open Cleanup (IsCleanup bodyOf closings droppedLines)

namespace ClassPass

/-- Walks the methods of a class one after another. -/
def instrumentAll (pass : ClassPass) (methods : List (MethodInfo × List Instruction)) :
    ClassPass :=
  methods.foldl (fun pass method ↦ (pass.instrument method.1 method.2).1) pass

theorem settings_instrumentAll (pass : ClassPass)
    (methods : List (MethodInfo × List Instruction)) :
    (pass.instrumentAll methods).settings = pass.settings := by
  induction methods generalizing pass with
  | nil => rfl
  | cons method rest ih => exact ih _

theorem reachable_instrumentAll {pass : ClassPass} (hstore : pass.store.Reachable)
    (methods : List (MethodInfo × List Instruction)) :
    (pass.instrumentAll methods).store.Reachable := by
  induction methods generalizing pass with
  | nil => exact hstore
  | cons method rest ih => exact ih (reachable_instrument hstore method.1 method.2)

end ClassPass

/-! ### Invariants of a pass -/

/-- A property of stores that is kept when a record is made for one of the lines and when a record
is changed or removed. -/
structure PassInvariant (marks : UInt32 → Prop) (property : ClassStore → Prop) : Prop where
  ensureLine : ∀ {store line}, marks line → property store → ∀ signature,
    property (store.ensureLine line signature)
  restructureLine : ∀ {store}, property store → ∀ line f, property (store.restructureLine line f)

namespace PassInvariant

variable {marks : UInt32 → Prop} {property : ClassStore → Prop} {store : ClassStore}
  {pass : MethodPass} {instructions : List Instruction}

theorem retractAll (hinvariant : PassInvariant marks property) (hstore : property store)
    (calls : List Retraction) : property (store.retractAll calls) := by
  induction calls generalizing store with
  | nil => exact hstore
  | cons call rest ih =>
    rcases call with line | line
    · exact ih (hinvariant.restructureLine hstore line _)
    · exact ih (hinvariant.restructureLine hstore line _)

theorem declared (hinvariant : PassInvariant marks property) (hstore : property store)
    {open? : Option UInt32} {result : ClassStore}
    (hdeclared : ClassStore.Declared store open? result) : property result := by
  rcases hdeclared with _ | ⟨hopen⟩ | ⟨hopen, keys⟩
  · exact hstore
  · unfold ClassStore.declareJump
    split
    · exact hinvariant.restructureLine hstore _ _
    · exact hstore
  · unfold ClassStore.declareSwitch
    split
    · exact hinvariant.restructureLine hstore _ _
    · exact hstore

theorem visitAll (hinvariant : PassInvariant marks property) (hstore : property pass.store)
    (hmarked : ∀ line, .marker line ∈ instructions → marks line) :
    property (pass.visitAll instructions).store := by
  induction instructions generalizing pass with
  | nil => exact hstore
  | cons instruction rest ih =>
    refine ih ?_ fun line hline ↦ hmarked line (List.mem_cons_of_mem _ hline)
    obtain ⟨line, rfl⟩ | hmarker := instruction.eq_marker_or
    · exact hinvariant.ensureLine (hmarked line List.mem_cons_self)
        (hinvariant.retractAll hstore _) _
    · rw [MethodPass.visit_eq hmarker]
      exact hinvariant.retractAll (hinvariant.declared hstore (pass.declared_record instruction)) _

theorem instrumentAll {pass : ClassPass} (hinvariant : PassInvariant marks property)
    (hstore : property pass.store) {methods : List (MethodInfo × List Instruction)}
    (hmarked : ∀ method ∈ methods, ∀ line, .marker line ∈ method.2 → marks line) :
    property (pass.instrumentAll methods).store := by
  induction methods generalizing pass with
  | nil => exact hstore
  | cons method rest ih =>
    refine ih ?_ fun other hother ↦ hmarked other (List.mem_cons_of_mem _ hother)
    have hbegun : property (pass.beginMethod method.1).store := hstore
    exact hinvariant.retractAll (hinvariant.visitAll hbegun (hmarked method List.mem_cons_self)) _

/-- What concerns neither the table, the highest line nor the owners of lines. -/
theorem mask (mask? : Option CounterBank) :
    PassInvariant (fun _ ↦ True) fun store ↦ store.mask = mask? where
  ensureLine _ hmask _ := hmask
  restructureLine hmask line f := (ClassStore.mask_restructureLine _ line f).trans hmask

end PassInvariant

theorem ClassPass.mask_instrumentAll (pass : ClassPass)
    (methods : List (MethodInfo × List Instruction)) :
    (pass.instrumentAll methods).store.mask = pass.store.mask :=
  (PassInvariant.mask pass.store.mask).instrumentAll rfl fun _ _ _ _ ↦ trivial

/-! ### The counts of a line -/

/-- The method drops the record of the line: the cleanup filter watches it, and a segment of the
line is nothing but cleanup code. -/
def DropsLine (settings : Settings) (line : UInt32) (method : MethodInfo)
    (instructions : List Instruction) : Prop :=
  settings.filters.tryWithResources = true ∧
    (method.classVersion = 0 ∨ 51 ≤ method.classVersion) ∧
    ∃ before after, instructions = before ++ .marker line :: after ∧ IsCleanup (bodyOf after)

theorem dropsLine_iff {settings : Settings} {line : UInt32} {method : MethodInfo}
    {instructions : List Instruction} : DropsLine settings line method instructions ↔
      settings.filters.tryWithResources = true ∧
        (method.classVersion = 0 ∨ 51 ≤ method.classVersion) ∧
        line ∈ (closings none instructions).flatten := by
  rw [DropsLine, Cleanup.mem_flatten_closings_iff]
  simp

instance (settings : Settings) (line : UInt32) (method : MethodInfo)
    (instructions : List Instruction) : Decidable (DropsLine settings line method instructions) :=
  decidable_of_iff _ dropsLine_iff.symm

namespace ClassStore

variable {store : ClassStore} {line : UInt32} {record : LineRecord}

/-- Dropping jumps, and dropping other lines, does not change the counts of a line. -/
theorem hits_retractAll (hstore : store.Reachable) {calls : List Retraction}
    (hkept : .dropLine line ∉ calls) (hrecord : store.line? line = some record) :
    ∃ later, (store.retractAll calls).line? line = some later ∧ later.hits = record.hits := by
  have hdropped : line ∉ droppedLines calls := by
    rw [droppedLines, List.mem_filterMap]
    rintro ⟨call, hcall, hline⟩
    rcases call with dropped | dropped
    · exact hkept (Option.some.inj hline ▸ hcall)
    · cases hline
  have hcontains := (containsLine_retractAll hstore calls line).mpr
    ⟨by rw [containsLine_eq, hrecord, Option.isSome_some], hdropped⟩
  rw [containsLine_eq, Option.isSome_iff_exists] at hcontains
  obtain ⟨later, hlater⟩ := hcontains
  obtain ⟨old, count, hold, rfl⟩ := exists_dropJumps_of_retractAll hstore hlater
  cases hrecord.symm.trans hold
  exact ⟨_, hlater, rfl⟩

end ClassStore

namespace MethodPass

variable {pass : MethodPass} {line : UInt32} {record : LineRecord}

theorem hits_visit (hstore : pass.store.Reachable) {instruction : Instruction}
    (hkept : .dropLine line ∉ (pass.filters.deliver instruction.signal).2)
    (hrecord : pass.store.line? line = some record) :
    ∃ later, (pass.visit instruction).store.line? line = some later ∧
      later.hits = record.hits := by
  obtain ⟨opened, rfl⟩ | hmarker := instruction.eq_marker_or
  · obtain ⟨later, hlater, hhits⟩ := ClassStore.hits_retractAll hstore hkept hrecord
    refine ⟨later, ?_, hhits⟩
    change (pass.deliver (Instruction.marker opened).signal).store.line? line = some later at hlater
    refine (ClassStore.line?_ensureLine (reachable_deliver hstore _).wellFormed opened _ line).trans
      ?_
    split_ifs with hline
    · subst hline
      rw [hlater, Option.getD_some]
    · exact hlater
  · have hrecorded : (pass.record instruction).store.line? line =
        some (pass.declaring line instruction record) := by
      rw [line?_record hstore.wellFormed, hrecord, Option.map_some]
    rw [← filters_record pass instruction] at hkept
    obtain ⟨later, hlater, hhits⟩ := ClassStore.hits_retractAll
      ((pass.declared_record instruction).reachable hstore) hkept hrecorded
    rw [visit_eq hmarker]
    exact ⟨later, hlater, hhits.trans (pass.growsTo_declaring line instruction record).hits_eq⟩

theorem hits_visitAll (hstore : pass.store.Reachable) {instructions : List Instruction}
    (hkept : .dropLine line ∉ pass.retractions instructions)
    (hrecord : pass.store.line? line = some record) :
    ∃ later, (pass.visitAll instructions).store.line? line = some later ∧
      later.hits = record.hits := by
  induction instructions generalizing pass record with
  | nil => exact ⟨record, hrecord, rfl⟩
  | cons instruction rest ih =>
    rw [retractions_cons, List.mem_append, not_or] at hkept
    obtain ⟨next, hnext, hhits⟩ := hits_visit hstore hkept.1 hrecord
    obtain ⟨later, hlater, hrest⟩ := ih (reachable_visit hstore instruction) hkept.2 hnext
    exact ⟨later, hlater, hrest.trans hhits⟩

/-- A method that does not drop the line issues no call to do so. -/
theorem dropLine_notMem_start (store : ClassStore) {settings : Settings} {method : MethodInfo}
    {instructions : List Instruction} (hkept : ¬ DropsLine settings line method instructions) :
    .dropLine line ∉ ((start store settings method).filters.callsOf
      (instructions.map Instruction.signal ++ [.finish])).flatten := by
  rw [filters_start]
  cases hactive : settings.filters.tryWithResources && Cleanup.filter.applicable method with
  | false =>
    rw [if_neg Bool.false_ne_true, FilterChain.flatten_callsOf_empty]
    exact List.not_mem_nil
  | true =>
    obtain ⟨henabled, happlicable⟩ := (Bool.and_eq_true _ _).mp hactive
    rw [if_pos rfl]
    refine dropLine_notMem_callsOf fun before after hsplit hcleanup ↦ hkept ?_
    exact ⟨henabled, (Cleanup.applicable_iff method).mp happlicable, before, after, hsplit,
      hcleanup⟩

end MethodPass

namespace ClassPass

variable {pass : ClassPass} {line : UInt32} {record : LineRecord}

theorem hits_instrument (hstore : pass.store.Reachable) {method : MethodInfo}
    {instructions : List Instruction}
    (hkept : ¬ DropsLine pass.settings line method instructions)
    (hrecord : pass.store.line? line = some record) :
    ∃ later, (pass.instrument method instructions).1.store.line? line = some later ∧
      later.hits = record.hits := by
  have hcalls := MethodPass.dropLine_notMem_start pass.store hkept
  rw [MethodPass.flatten_callsOf_finish, List.mem_append, not_or] at hcalls
  have hbegun : (pass.beginMethod method).store.line? line = some record := hrecord
  obtain ⟨middle, hmiddle, hhits⟩ := MethodPass.hits_visitAll hstore hcalls.1 hbegun
  obtain ⟨later, hlater, hsame⟩ := ClassStore.hits_retractAll
    (@MethodPass.reachable_visitAll (pass.beginMethod method) hstore instructions) hcalls.2 hmiddle
  exact ⟨later, hlater, hsame.trans hhits⟩

theorem hits_instrumentAll (hstore : pass.store.Reachable)
    {methods : List (MethodInfo × List Instruction)}
    (hkept : ∀ method ∈ methods, ¬ DropsLine pass.settings line method.1 method.2)
    (hrecord : pass.store.line? line = some record) :
    ∃ later, (pass.instrumentAll methods).store.line? line = some later ∧
      later.hits = record.hits := by
  induction methods generalizing pass record with
  | nil => exact ⟨record, hrecord, rfl⟩
  | cons method rest ih =>
    obtain ⟨next, hnext, hhits⟩ := hits_instrument hstore (hkept method List.mem_cons_self) hrecord
    obtain ⟨later, hlater, hrest⟩ := ih (reachable_instrument hstore method.1 method.2)
      (fun other hother ↦ hkept other (List.mem_cons_of_mem _ hother)) hnext
    exact ⟨later, hlater, hrest.trans hhits⟩

end ClassPass

end JvmCoverage
