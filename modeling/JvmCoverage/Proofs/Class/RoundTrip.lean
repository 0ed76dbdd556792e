import JvmCoverage.Proofs.Class.WellFormed
import JvmCoverage.Proofs.Line.RoundTrip
import Mathlib.Data.List.Nodup
import Mathlib.Data.List.Perm.Subperm
/-!
# Class stores are read back

A class is written owner by owner, and its lines come back in that order. No line is lost on the
way and none is written twice, because the groups of the owners are the records in another order
(`ClassStore.perm_recordsOf`). While the lines are read, `ClassStore.Filing` says what the new store
holds; a record that it does not have yet is filed, and the last one gives the class
(`ClassStore.recovers_fields`).

`ClassStore.ReadBack` compares a store with what a save of it gives back.
-/

set_option autoImplicit false
set_option relaxedAutoImplicit false

namespace JvmCoverage

open Std (ExtTreeSet)
open Decoder

namespace ClassStore

variable {store : ClassStore}

/-! ### The groups of the owners -/

theorem mem_methodSignatures_iff {signature : String} :
    signature ∈ store.methodSignatures ↔
      ∃ record ∈ store.records, record.signature = signature := by
  rw [methodSignatures, ExtTreeSet.mem_toList, ExtTreeSet.mem_ofList, List.contains_iff_mem,
    List.mem_map]

theorem nodup_methodSignatures (store : ClassStore) : store.methodSignatures.Nodup :=
  ExtTreeSet.distinct_toList.imp fun hne heq ↦ hne (Std.compare_eq_iff_eq.mpr heq)

theorem mem_recordsOf_iff {signature : String} {record : LineRecord} :
    record ∈ store.recordsOf signature ↔
      record ∈ store.records ∧ record.signature = signature := by
  rw [recordsOf, List.mem_filter, decide_eq_true_iff]

/-- Each record is in the group of its owner and in no other. -/
theorem perm_recordsOf (hstore : store.WellFormed) :
    (store.methodSignatures.flatMap store.recordsOf).Perm store.records := by
  have hgroups : (store.methodSignatures.flatMap store.recordsOf).Nodup := by
    refine List.nodup_flatMap.mpr ⟨fun _ _ ↦ (LineTable.nodup_records hstore.filed).filter _, ?_⟩
    refine (nodup_methodSignatures store).imp fun hne record hfirst hsecond ↦ hne ?_
    exact (mem_recordsOf_iff.mp hfirst).2.symm.trans (mem_recordsOf_iff.mp hsecond).2
  refine (List.perm_ext_iff_of_nodup hgroups
    (LineTable.nodup_records hstore.filed)).mpr fun record ↦ ?_
  rw [List.mem_flatMap]
  constructor
  · rintro ⟨signature, _, hrecord⟩
    exact (mem_recordsOf_iff.mp hrecord).1
  · intro hrecord
    exact ⟨record.signature, mem_methodSignatures_iff.mpr ⟨record, hrecord, rfl⟩,
      mem_recordsOf_iff.mpr ⟨hrecord, rfl⟩⟩

/-! ### The lengths that are written -/

/-- A class has no more lines than a class file has line numbers. -/
theorem lineCount_le (hstore : store.WellFormed)
    (hline : ∀ record ∈ store.records, record.line ≤ highestLineNumber) :
    store.lineCount ≤ 65536 := by
  have hnodup : (store.records.map fun record ↦ record.line.toNat).Nodup := by
    refine List.pairwise_map.mpr ((LineTable.pairwise_records hstore.filed).imp fun hlt ↦ ?_)
    exact Nat.ne_of_lt (UInt32.lt_iff_toNat_lt.mp hlt)
  have hsubset : (store.records.map fun record ↦ record.line.toNat) ⊆ List.range 65536 := by
    intro number hnumber
    obtain ⟨record, hrecord, rfl⟩ := List.mem_map.mp hnumber
    exact List.mem_range.mpr (Nat.lt_succ_of_le (UInt32.le_iff_toNat_le.mp (hline record hrecord)))
  have hlength := (List.subperm_of_subset hnodup hsubset).length_le
  rwa [List.length_map, List.length_range] at hlength

theorem length_methodSignatures_le (store : ClassStore) :
    store.methodSignatures.length ≤ store.lineCount := by
  rw [methodSignatures, ExtTreeSet.length_toList]
  exact Nat.le_trans ExtTreeSet.size_ofList_le (by rw [List.length_map]; exact Nat.le_refl _)

theorem length_recordsOf_le (store : ClassStore) (signature : String) :
    (store.recordsOf signature).length ≤ store.lineCount :=
  List.length_filter_le _ _

/-- No line comes twice in the groups. -/
theorem pairwise_groups (hstore : store.WellFormed) :
    ((store.methodSignatures.flatMap store.recordsOf).map LineRecord.renumbered).Pairwise
      (·.line ≠ ·.line) := by
  refine List.pairwise_map.mpr ((perm_recordsOf hstore).symm.pairwise ?_ fun hne ↦ Ne.symm hne)
  refine (LineTable.pairwise_records hstore.filed).imp fun {first second} hlt heq ↦ ?_
  have hline : first.line = second.line := heq
  exact UInt32.lt_irrefl _ (hline ▸ hlt)

/-! ### Filing records -/

/-- The store holds the given records, which were read into it one after another. -/
structure Filing (name : String) (records : List LineRecord) (store : ClassStore) : Prop where
  name_eq : store.name = name
  filed : store.table.Filed store.maxLine
  line?_eq_some_iff : ∀ line record,
    store.line? line = some record ↔ record ∈ records ∧ record.line = line
  isDense_eq : store.isDense = false
  mask_eq : store.mask = none
  maxLine_eq : store.maxLine = (records.map LineRecord.line).foldl max 0

namespace Filing

variable {name : String} {records : List LineRecord}

theorem fresh (name : String) : Filing name [] { name } where
  name_eq := rfl
  filed := LineTable.filed_empty 0
  line?_eq_some_iff line record := by
    constructor
    · intro hfound
      cases (LineTable.find?_empty line).symm.trans hfound
    · rintro ⟨⟨⟩, _⟩
  isDense_eq := rfl
  mask_eq := rfl
  maxLine_eq := rfl

theorem line?_eq_none (hfiling : Filing name records store) {line : UInt32}
    (hnew : ∀ other ∈ records, other.line ≠ line) : store.line? line = none := by
  cases hfound : store.line? line with
  | none => rfl
  | some other =>
    obtain ⟨hother, hline⟩ := (hfiling.line?_eq_some_iff _ _).mp hfound
    exact absurd hline (hnew other hother)

theorem find?_alter_eq_some_iff (hfiling : Filing name records store) {record : LineRecord}
    (hnew : ∀ other ∈ records, other.line ≠ record.line) (line : UInt32) (other : LineRecord) :
    (store.table.alter record.line fun _ ↦ some record).find? line = some other ↔
      other ∈ records ++ [record] ∧ other.line = line := by
  rw [LineTable.find?_alter hfiling.filed, List.mem_append, List.mem_singleton]
  by_cases hline : line = record.line
  · rw [if_pos hline]
    constructor
    · rintro ⟨⟩
      exact ⟨.inr rfl, hline.symm⟩
    · rintro ⟨hother | rfl, hotherLine⟩
      · exact absurd (hotherLine.trans hline) (hnew other hother)
      · rfl
  · have hold : store.table.find? line = some other ↔ other ∈ records ∧ other.line = line :=
      hfiling.line?_eq_some_iff line other
    rw [if_neg hline, hold]
    constructor
    · exact fun hother ↦ ⟨.inl hother.1, hother.2⟩
    · rintro ⟨hother | rfl, hotherLine⟩
      · exact ⟨hother, hotherLine⟩
      · exact absurd hotherLine.symm hline

/-- A record is filed when no record of its line was. -/
theorem fileRecord (hfiling : Filing name records store) {record : LineRecord}
    (hnew : ∀ other ∈ records, other.line ≠ record.line) :
    ∃ filed, store.fileRecord record = .ok filed ∧ Filing name (records ++ [record]) filed := by
  refine ⟨_, fileRecord_eq_ok_iff.mpr ⟨hfiling.line?_eq_none hnew, rfl⟩, ?_⟩
  exact {
    name_eq := hfiling.name_eq
    filed := LineTable.filed_alter hfiling.filed (le_max_left _ _) fun other hother ↦ by
      cases hother
      exact ⟨rfl, le_max_right _ _⟩
    line?_eq_some_iff := hfiling.find?_alter_eq_some_iff hnew
    isDense_eq := rfl
    mask_eq := hfiling.mask_eq
    maxLine_eq := by
      rw [List.map_append, List.foldl_append, ← hfiling.maxLine_eq]
      rfl }

/-- The order in which records were read does not matter. -/
theorem perm (hfiling : Filing name records store) {others : List LineRecord}
    (hperm : records.Perm others) : Filing name others store :=
  { hfiling with
    line?_eq_some_iff := fun line record ↦ by rw [hfiling.line?_eq_some_iff, hperm.mem_iff]
    maxLine_eq := by
      refine hfiling.maxLine_eq.trans ((hperm.map LineRecord.line).foldl_eq' ?_ 0)
      intro first _ second _ highest
      rw [← UInt32.toNat_inj, toNat_max, toNat_max, toNat_max, toNat_max]
      omega }

end Filing

/-! ### Reading a class -/

/-- The lines of an owner are filed behind those that were read before. -/
theorem recovers_decodeGroup {name signature : String} {passed group : List LineRecord}
    (hfiling : Filing name passed store) (howner : ∀ record ∈ group, record.signature = signature)
    (hsized : ∀ record ∈ group, record.Sized) (hfits : ∀ record ∈ group, record.Fits)
    (hlength : group.length < UInt32.size)
    (hdistinct : (passed ++ group.map LineRecord.renumbered).Pairwise (·.line ≠ ·.line)) :
    Recovers store.decodeGroup
      (.text signature :: .count group.length :: group.flatMap LineRecord.fields)
      (Filing name (passed ++ group.map LineRecord.renumbered)) := by
  refine (reads_text signature).bind_cons_recovers ?_
  refine (reads_count hlength).bind_cons_recovers ?_
  refine recovers_iterate group
    (fun done ↦ Filing name (passed ++ done.map LineRecord.renumbered)) ?_ ?_
  · intro done record rest filing hgroup hdone
    have hrecord : record ∈ group := by simp [hgroup]
    have hnew : ∀ other ∈ passed ++ done.map LineRecord.renumbered,
        other.line ≠ record.renumbered.line := by
      intro other hother
      rw [hgroup, List.map_append, List.map_cons, ← List.append_assoc] at hdistinct
      exact (List.pairwise_append.mp hdistinct).2.2 other hother _ List.mem_cons_self
    obtain ⟨filed, hfile, hnext⟩ := hdone.fileRecord hnew
    have hread := LineRecord.reads_fields (hsized record hrecord) (hfits record hrecord)
    rw [howner record hrecord] at hread
    rw [List.map_append, ← List.append_assoc]
    refine (hread.recovers rfl).bind_lift ?_
    rintro _ rfl
    exact ⟨filed, hfile, hnext⟩
  · rw [List.map_nil, List.append_nil]
    exact { hfiling with }

/-- A class is read as a store with its records, whose ids are positions. -/
theorem recovers_fields (hstore : store.WellFormed) (hfits : ∀ record ∈ store.records, record.Fits)
    {dictionary : Dictionary} {index : UInt32} (hindex : dictionary.get? index = some store.name) :
    Recovers (decode dictionary) (store.fields index)
      (Filing store.name (store.records.map LineRecord.renumbered)) := by
  have hcount : store.lineCount < UInt32.size :=
    Nat.lt_of_le_of_lt (lineCount_le hstore fun record hrecord ↦ (hfits record hrecord).line_le)
      (by decide)
  refine (reads_int index).bind_cons_recovers ?_
  rw [hindex]
  refine (reads_count (Nat.lt_of_le_of_lt (length_methodSignatures_le store) hcount)
    ).bind_cons_recovers ?_
  suffices hgroups : Recovers
      (iterate decodeGroup store.methodSignatures.length { name := store.name })
      (store.methodSignatures.flatMap store.groupFields)
      (Filing store.name
        ((store.methodSignatures.flatMap store.recordsOf).map LineRecord.renumbered)) by
    intro bytes rest hbytes
    obtain ⟨back, hback, hfiling⟩ := hgroups rest hbytes
    exact ⟨back, hback, hfiling.perm ((perm_recordsOf hstore).map _)⟩
  refine recovers_iterate store.methodSignatures
    (fun done ↦ Filing store.name ((done.flatMap store.recordsOf).map LineRecord.renumbered)) ?_
    (Filing.fresh store.name)
  intro done signature rest loading hsignatures hloading
  have hrecord {record : LineRecord} (hmem : record ∈ store.recordsOf signature) :
      record ∈ store.records := (mem_recordsOf_iff.mp hmem).1
  have hdistinct := pairwise_groups hstore
  rw [hsignatures, List.flatMap_append, List.flatMap_cons, List.map_append, List.map_append,
    ← List.append_assoc] at hdistinct
  have hgroup := recovers_decodeGroup hloading
    (fun record hmem ↦ (mem_recordsOf_iff.mp hmem).2)
    (fun record hmem ↦ hstore.sized_of_mem (hrecord hmem))
    (fun record hmem ↦ hfits record (hrecord hmem))
    (Nat.lt_of_le_of_lt (length_recordsOf_le store signature) hcount)
    (List.pairwise_append.mp hdistinct).1
  rwa [List.flatMap_append, List.flatMap_singleton, List.map_append]

/-! ### What a save gives back -/

/-- `back` has the lines of `store` with what the mask counted added to them and with positions as
ids, in a sparse table and without a mask. -/
structure ReadBack (store back : ClassStore) : Prop where
  name_eq : back.name = store.name
  lineNumbers_eq : back.lineNumbers = store.lineNumbers
  line?_eq : ∀ line, back.line? line =
    (store.line? line).map fun record ↦ (record.addHits (store.maskCount line)).renumbered
  hits_eq : ∀ line record, store.line? line = some record → ∃ read,
    back.line? line = some read ∧ read.hits.value = record.hits.value + store.maskCount line
  positional_eq : ∀ line record, store.line? line = some record → record.Positional →
    back.line? line = some (record.addHits (store.maskCount line))
  isDense_eq : back.isDense = false
  mask_eq : back.mask = none
  maxLine_eq : back.maxLine = store.lineNumbers.foldl max 0

/-- What is found after the records of `store` are filed with positions as ids. -/
theorem Filing.line?_renumbered (hstore : store.WellFormed) {name : String} {back : ClassStore}
    (hfiling : Filing name (store.records.map LineRecord.renumbered) back) (line : UInt32) :
    back.line? line = (store.line? line).map LineRecord.renumbered := by
  ext record
  rw [hfiling.line?_eq_some_iff, List.mem_map]
  constructor
  · rintro ⟨⟨old, hmem, rfl⟩, hnumber⟩
    have hfound := (LineTable.mem_records_iff hstore.filed old).mp hmem
    have hfoundLine : store.line? line = some old := hnumber ▸ hfound
    rw [hfoundLine]
    rfl
  · intro hrecord
    obtain ⟨old, hold, rfl⟩ := Option.map_eq_some_iff.mp hrecord
    have hnumber : old.line = line := hstore.filed.line_eq hold
    exact ⟨⟨old, (LineTable.mem_records_iff hstore.filed old).mpr (hnumber ▸ hold), rfl⟩, hnumber⟩

theorem lineNumbers_foldMask (hstore : store.WellFormed) :
    store.foldMask.lineNumbers = store.lineNumbers :=
  LineTable.lineNumbers_congr hstore.foldMask.filed hstore.filed fun line ↦ by
    show (store.foldMask.line? line).isSome = (store.line? line).isSome
    rw [line?_foldMask, Option.isSome_map]

theorem readBack_of_filing (hstore : store.WellFormed) {back : ClassStore}
    (hfiling : Filing store.name (store.foldMask.records.map LineRecord.renumbered) back) :
    ReadBack store back := by
  have hline (line : UInt32) : back.line? line =
      (store.line? line).map fun record ↦ (record.addHits (store.maskCount line)).renumbered := by
    rw [hfiling.line?_renumbered hstore.foldMask, line?_foldMask, Option.map_map]
    rfl
  have hnumbers : back.lineNumbers = store.lineNumbers :=
    LineTable.lineNumbers_congr hfiling.filed hstore.filed fun line ↦ by
      show (back.line? line).isSome = (store.line? line).isSome
      rw [hline, Option.isSome_map]
  exact {
    name_eq := hfiling.name_eq
    lineNumbers_eq := hnumbers
    line?_eq := hline
    hits_eq := fun line record hrecord ↦ ⟨_, by rw [hline, hrecord, Option.map_some], rfl⟩
    positional_eq := fun line record hrecord hpositional ↦ by
      rw [hline, hrecord, Option.map_some,
        LineRecord.renumbered_of_positional (hpositional.addHits _)]
    isDense_eq := hfiling.isDense_eq
    mask_eq := hfiling.mask_eq
    maxLine_eq := by
      rw [hfiling.maxLine_eq, List.map_map, ← lineNumbers_foldMask hstore]
      rfl }

/-- The fields of a class, its mask folded, are read as what a save gives back. -/
theorem recovers_foldMask (hstore : store.WellFormed)
    (hfits : ∀ line record, store.line? line = some record → record.Fits)
    {dictionary : Dictionary} {index : UInt32} (hindex : dictionary.get? index = some store.name) :
    Recovers (decode dictionary) (store.foldMask.fields index) (ReadBack store) := by
  have hfolded (record : LineRecord) (hmem : record ∈ store.foldMask.records) : record.Fits := by
    have hfound := (LineTable.mem_records_iff hstore.foldMask.filed record).mp hmem
    change store.foldMask.line? record.line = some record at hfound
    rw [line?_foldMask] at hfound
    obtain ⟨old, hold, heq⟩ := Option.map_eq_some_iff.mp hfound
    exact heq ▸ (hfits _ old hold).addHits _
  rw [← name_foldMask] at hindex
  intro bytes rest hbytes
  obtain ⟨back, hback, hfiling⟩ := recovers_fields hstore.foldMask hfolded hindex rest hbytes
  rw [name_foldMask] at hfiling
  exact ⟨back, hback, readBack_of_filing hstore hfiling⟩

end ClassStore

end JvmCoverage
