import JvmCoverage.Proofs.Class.RoundTrip
import Mathlib.Data.List.Induction
/-!
# The order in which records are visited

`ClassStore.fields` lists the records of a class in a fixed order. A writer that goes over a hash
table meets them in some order that it does not choose; it collects them by owner as they come
(`VisitOrder.groups`) and sorts the lines of each owner before it writes them, with a sort that need
not be stable. A `VisitOrder` is any such way to go over a class. `VisitOrder.fields_eq` says that
all of them write the same fields: no two records of a class are of one line, so the sort leaves no
choice, and the owners come from a sorted map.
-/

set_option autoImplicit false
set_option relaxedAutoImplicit false

namespace JvmCoverage

open Std (ExtTreeMap ExtTreeSet)

/-- How a writer goes over the records of a class: in which order it meets them, and how it sorts
the lines of an owner. -/
structure VisitOrder where
  visit : ClassStore → List LineRecord
  sort : List LineRecord → List LineRecord
  perm_visit : ∀ store, (visit store).Perm store.records
  perm_sort : ∀ group, (sort group).Perm group
  pairwise_sort : ∀ group, (sort group).Pairwise (·.line ≤ ·.line)

namespace VisitOrder

variable {order : VisitOrder} {store : ClassStore}

/-- The records by owner, each owner with its records in the order in which they were met. -/
def groups (records : List LineRecord) : ExtTreeMap String (List LineRecord) :=
  records.foldl (fun groups record ↦
    groups.alter record.signature fun group? ↦ some (group?.getD [] ++ [record])) ∅

/-- The fields of a class as they are written in this order. -/
def fields (order : VisitOrder) (store : ClassStore) (index : UInt32) : List Field :=
  .int index :: .count (groups (order.visit store)).size ::
    (groups (order.visit store)).toList.flatMap fun group ↦
      .text group.1 :: .count group.2.length :: (order.sort group.2).flatMap LineRecord.fields

/-! ### The groups -/

theorem getElem?_groups (records : List LineRecord) (signature : String) :
    (groups records)[signature]? =
      if records.filter (·.signature = signature) = [] then none
      else some (records.filter (·.signature = signature)) := by
  induction records using List.reverseRecOn with
  | nil => simp [groups]
  | append_singleton records record ih =>
    rw [groups, List.foldl_append, List.foldl_cons, List.foldl_nil]
    change ((groups records).alter record.signature _)[signature]? = _
    rw [ExtTreeMap.getElem?_alter, List.filter_append]
    by_cases howner : record.signature = signature
    · subst howner
      rw [if_pos (Std.compare_eq_iff_eq.mpr rfl), ih]
      split <;> simp [*]
    · rw [if_neg fun heq ↦ howner (Std.compare_eq_iff_eq.mp heq), ih]
      simp [howner]

theorem perm_filter_visit (order : VisitOrder) (store : ClassStore) (signature : String) :
    ((order.visit store).filter (·.signature = signature)).Perm (store.recordsOf signature) :=
  (order.perm_visit store).filter _

theorem mem_keys_groups_iff (order : VisitOrder) (store : ClassStore) (signature : String) :
    signature ∈ (groups (order.visit store)).keys ↔ signature ∈ store.methodSignatures := by
  rw [ExtTreeMap.mem_keys, ExtTreeMap.mem_iff_isSome_getElem?, getElem?_groups,
    ClassStore.mem_methodSignatures_iff]
  split
  · next hnone =>
    rw [List.filter_eq_nil_iff] at hnone
    refine ⟨nofun, fun ⟨record, hrecord, howner⟩ ↦ absurd (decide_eq_true howner) ?_⟩
    exact hnone record ((order.perm_visit store).mem_iff.mpr hrecord)
  · next hsome =>
    obtain ⟨record, hrecord⟩ := List.exists_mem_of_ne_nil _ hsome
    obtain ⟨hvisited, howner⟩ := List.mem_filter.mp hrecord
    refine ⟨fun _ ↦ ⟨record, ?_, of_decide_eq_true howner⟩, fun _ ↦ rfl⟩
    exact (order.perm_visit store).mem_iff.mp hvisited

/-- The owners are met in some order and come out in theirs. -/
theorem keys_groups (order : VisitOrder) (store : ClassStore) :
    (groups (order.visit store)).keys = store.methodSignatures := by
  have hasymm (first second : String) (hlt : compare first second = .lt)
      (hgt : compare second first = .lt) : first = second := by
    have hflip := Std.OrientedCmp.gt_of_lt hlt
    rw [hgt] at hflip
    cases hflip
  have hordered : (groups (order.visit store)).keys.Pairwise (compare · · = .lt) :=
    ExtTreeMap.ordered_keys
  have hownersOrdered : store.methodSignatures.Pairwise (compare · · = .lt) :=
    ExtTreeSet.ordered_toList
  refine List.Perm.eq_of_pairwise (fun first second _ _ ↦ hasymm first second) hordered
    hownersOrdered ?_
  exact (List.perm_ext_iff_of_nodup ExtTreeMap.nodup_keys
    (ClassStore.nodup_methodSignatures store)).mpr (order.mem_keys_groups_iff store)

theorem toList_groups (order : VisitOrder) (store : ClassStore) :
    (groups (order.visit store)).toList = store.methodSignatures.map fun signature ↦
      (signature, (order.visit store).filter (·.signature = signature)) := by
  have hpair (pair : String × List LineRecord)
      (hpair : pair ∈ (groups (order.visit store)).toList) :
      (pair.1, (order.visit store).filter (·.signature = pair.1)) = pair := by
    have hgroup := ExtTreeMap.mem_toList_iff_getElem?_eq_some.mp hpair
    rw [getElem?_groups] at hgroup
    split at hgroup
    · cases hgroup
    · rw [Option.some.inj hgroup]
  rw [← order.keys_groups store, ← ExtTreeMap.map_fst_toList_eq_keys, List.map_map]
  exact (List.map_id _).symm.trans (List.map_congr_left fun pair hmem ↦ (hpair pair hmem).symm)

/-- The lines of an owner are all different, so there is one way to sort them. -/
theorem sort_filter_visit (order : VisitOrder) (hstore : store.WellFormed) (signature : String) :
    order.sort ((order.visit store).filter (·.signature = signature)) =
      store.recordsOf signature := by
  have hperm := (order.perm_sort _).trans (order.perm_filter_visit store signature)
  have hlines : (store.recordsOf signature).Pairwise (·.line < ·.line) :=
    (LineTable.pairwise_records hstore.filed).filter _
  have hstrict : (order.sort ((order.visit store).filter (·.signature = signature))).Pairwise
      (·.line < ·.line) := by
    have hne := (hperm.symm.pairwise (hlines.imp fun hlt ↦ UInt32.ne_of_lt hlt)) fun hne ↦
      Ne.symm hne
    exact (order.pairwise_sort _).imp₂ (fun _ _ hle hne ↦ UInt32.lt_of_le_of_ne hle hne) hne
  refine hperm.eq_of_pairwise ?_ hstrict hlines
  intro first second _ _ hlt hgt
  exact absurd hgt (UInt32.lt_asymm hlt)

/-- In whatever order the records of a class are visited, its fields are written alike. -/
theorem fields_eq (order : VisitOrder) (hstore : store.WellFormed) (index : UInt32) :
    order.fields store index = store.fields index := by
  have hsize : (groups (order.visit store)).size = store.methodSignatures.length := by
    rw [← ExtTreeMap.length_keys, order.keys_groups]
  rw [fields, ClassStore.fields, hsize, order.toList_groups, List.flatMap_map]
  refine congrArg (_ :: _ :: ·) (List.flatMap_congr fun signature _ ↦ ?_)
  dsimp only
  rw [order.sort_filter_visit hstore, (order.perm_filter_visit store signature).length_eq]
  rfl

/-- From the highest line to the lowest, and sorted by merging. -/
def backwards : VisitOrder where
  visit store := store.records.reverse
  sort group := group.mergeSort (·.line ≤ ·.line)
  perm_visit store := store.records.reverse_perm
  perm_sort group := List.mergeSort_perm group _
  pairwise_sort group := by
    have htrans (first second third : LineRecord)
        (hfirst : decide (first.line ≤ second.line) = true)
        (hsecond : decide (second.line ≤ third.line) = true) :
        decide (first.line ≤ third.line) = true :=
      decide_eq_true (UInt32.le_trans (of_decide_eq_true hfirst) (of_decide_eq_true hsecond))
    have htotal (first second : LineRecord) :
        (decide (first.line ≤ second.line) || decide (second.line ≤ first.line)) = true := by
      simpa using UInt32.le_total first.line second.line
    exact (List.pairwise_mergeSort htrans htotal group).imp of_decide_eq_true

end VisitOrder

end JvmCoverage
