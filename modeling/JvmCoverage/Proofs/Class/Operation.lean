import JvmCoverage.Class.Layout
import JvmCoverage.Class.Merge
import JvmCoverage.Proofs.Line.Operation
/-!
# Operations on class stores

`ClassOp` lists what can be done to a class store, `ClassOp.apply` says what it does to the store
and `ClassOp.answer` what the caller gets back. `ClassStore.ensureLine` gives out a record to
change, and `ClassOp.ensureLine` has these changes with it. `ClassStore.Reachable` says that a store
was made by operations: it starts empty or is read from a report, and the stores that are merged
into it were made in the same way.
-/

set_option autoImplicit false
set_option relaxedAutoImplicit false

namespace JvmCoverage

/-- An operation on a class store. -/
inductive ClassOp
  /-- Makes or finds the record of a line and changes it. -/
  | ensureLine (line : UInt32) (signature : String) (edits : List RecordOp)
  | addJump (line id : UInt32)
  | addSwitch (line id : UInt32) (keys : CaseKeys)
  | removeLine (line : UInt32)
  | dropLastJump (line : UInt32)
  | hitLine (line : UInt32)
  | hitJump (line id : UInt32) (taken : Bool)
  | hitSwitch (line id : UInt32) (key : Int32)
  | openMask (maxLine : UInt32)
  | hitMask (line : UInt32)
  | merge (theirs : ClassStore)
  | methodStatus (signature : String)
  | save (dictionary : Dictionary) (sink : Sink)
  | densify

namespace ClassOp

def apply : ClassOp → ClassStore → ClassStore
  | ensureLine line signature edits, store =>
    (store.ensureLine line signature).modifyLine line (RecordOp.applyAll edits)
  | addJump line id, store => store.addJump line id
  | addSwitch line id keys, store => store.addSwitch line id keys
  | removeLine line, store => store.removeLine line
  | dropLastJump line, store => store.dropLastJump line
  | hitLine line, store => store.hitLine line
  | hitJump line id taken, store => store.hitJump line id taken
  | hitSwitch line id key, store => store.hitSwitch line id key
  | openMask maxLine, store => store.openMask maxLine
  | hitMask line, store => store.hitMask line
  | merge theirs, store => (store.mergeInPlace theirs).1
  | methodStatus signature, store => (store.methodStatus signature).2
  | save dictionary sink, store => (store.save dictionary sink).store
  | densify, store => store.densify

/-- What the caller of an operation gets back. -/
inductive Answer
  | done
  /-- The record of the line as it was handed out, and what its changes gave. -/
  | changed (record? : Option LineRecord) (answers : List RecordOp.Answer)
  | removed (record? : Option LineRecord)
  | dropped (jump? : Option JumpRecord)
  | merged (outcome : Except Failure Unit)
  | status (status : Status)
  | saved (dictionary : Dictionary) (sink : Sink) (outcome : Except Failure Unit)

/-- The record that a structural change finds, once the map is rebuilt. -/
def restructured? (store : ClassStore) (line : UInt32) : Option LineRecord :=
  if store.containsLine line then store.table.rebuild.find? line else none

def answer : ClassOp → ClassStore → Answer
  | ensureLine line signature edits, store =>
    let record? := (store.ensureLine line signature).line? line
    .changed record? (record?.elim [] (RecordOp.answers edits))
  | removeLine line, store => .removed (restructured? store line)
  | dropLastJump line, store => .dropped ((restructured? store line).bind (·.jumps.back?))
  | merge theirs, store => .merged (store.mergeInPlace theirs).2
  | methodStatus signature, store => .status (store.methodStatus signature).1
  | save dictionary sink, store =>
    let save := store.save dictionary sink
    .saved save.dictionary save.sink save.outcome
  | _, _ => .done

/-- The store after operations. -/
def applyAll (ops : List ClassOp) (store : ClassStore) : ClassStore :=
  ops.foldl (fun store op ↦ op.apply store) store

end ClassOp

/-! ### The passes of a merge -/

namespace ClassStore

variable {store ours theirs : ClassStore} {record : LineRecord} {rest : List LineRecord}
  {error : Failure}

theorem mergeRecords_cons_of_ok (hok : (store.mergeRecord record).2 = .ok ()) :
    store.mergeRecords (record :: rest) = (store.mergeRecord record).1.mergeRecords rest := by
  rcases hstep : store.mergeRecord record with ⟨next, outcome⟩
  rw [hstep] at hok
  subst hok
  simp only [mergeRecords, hstep]

theorem mergeRecords_cons_of_error (herror : (store.mergeRecord record).2 = .error error) :
    store.mergeRecords (record :: rest) = ((store.mergeRecord record).1, .error error) := by
  rcases hstep : store.mergeRecord record with ⟨next, outcome⟩
  rw [hstep] at herror
  subst herror
  simp only [mergeRecords, hstep]

theorem mergeInPlace_of_conflict (hconflict : ours.conflict? theirs = some error) :
    ours.mergeInPlace theirs = (ours, .error error) := by
  simp only [mergeInPlace, hconflict]

theorem mergeInPlace_of_ok (hconflict : ours.conflict? theirs = none)
    (hok : (ours.mergeRecords theirs.records).2 = .ok ()) :
    ours.mergeInPlace theirs =
      ((ours.mergeRecords theirs.records).1.mergeMask theirs, .ok ()) := by
  rcases hsecond : ours.mergeRecords theirs.records with ⟨merged, outcome⟩
  rw [hsecond] at hok
  subst hok
  simp only [mergeInPlace, hconflict, hsecond]

theorem mergeInPlace_of_error (hconflict : ours.conflict? theirs = none)
    (herror : (ours.mergeRecords theirs.records).2 = .error error) :
    ours.mergeInPlace theirs = ((ours.mergeRecords theirs.records).1, .error error) := by
  rcases hsecond : ours.mergeRecords theirs.records with ⟨merged, outcome⟩
  rw [hsecond] at herror
  subst herror
  simp only [mergeInPlace, hconflict, hsecond]

/-- What each record of the second pass keeps, the pass keeps, wherever it ends. -/
theorem mergeRecords_preserves (property : ClassStore → Prop) {records : List LineRecord}
    (hrecord : ∀ record ∈ records, ∀ store, property store → property (store.mergeRecord record).1)
    (hstore : property store) : property (store.mergeRecords records).1 := by
  induction records generalizing store with
  | nil => exact hstore
  | cons record rest ih =>
    have hnext := hrecord record List.mem_cons_self store hstore
    cases houtcome : (store.mergeRecord record).2 with
    | ok =>
      rw [mergeRecords_cons_of_ok houtcome]
      exact ih (fun other hother ↦ hrecord other (List.mem_cons_of_mem _ hother)) hnext
    | error error =>
      rw [mergeRecords_cons_of_error houtcome]
      exact hnext

theorem mergeInPlace_preserves (property : ClassStore → Prop)
    (hrecord : ∀ record ∈ theirs.records, ∀ store, property store →
      property (store.mergeRecord record).1)
    (hmask : ∀ store mask, property store → property (store.addMask mask))
    (hours : property ours) : property (ours.mergeInPlace theirs).1 := by
  have hmerged := mergeRecords_preserves property hrecord hours
  cases hconflict : ours.conflict? theirs with
  | some error =>
    rw [mergeInPlace_of_conflict hconflict]
    exact hours
  | none =>
    cases houtcome : (ours.mergeRecords theirs.records).2 with
    | error error =>
      rw [mergeInPlace_of_error hconflict houtcome]
      exact hmerged
    | ok =>
      rw [mergeInPlace_of_ok hconflict houtcome]
      unfold mergeMask
      cases theirs.mask with
      | some mask => exact hmask _ mask hmerged
      | none => exact hmerged

/-- Related stores that the pass treats alike, record by record, stay related, wherever it ends. -/
theorem mergeRecords_congr (relation : ClassStore → ClassStore → Prop) {first second : ClassStore}
    {records : List LineRecord}
    (hrecord : ∀ record ∈ records, ∀ first second, relation first second →
      (first.mergeRecord record).2 = (second.mergeRecord record).2 ∧
        relation (first.mergeRecord record).1 (second.mergeRecord record).1)
    (hstores : relation first second) :
    (first.mergeRecords records).2 = (second.mergeRecords records).2 ∧
      relation (first.mergeRecords records).1 (second.mergeRecords records).1 := by
  induction records generalizing first second with
  | nil => exact ⟨rfl, hstores⟩
  | cons record rest ih =>
    obtain ⟨hsame, hnext⟩ := hrecord record List.mem_cons_self first second hstores
    cases houtcome : (first.mergeRecord record).2 with
    | error error =>
      rw [mergeRecords_cons_of_error houtcome, mergeRecords_cons_of_error (hsame ▸ houtcome)]
      exact ⟨rfl, hnext⟩
    | ok =>
      rw [mergeRecords_cons_of_ok houtcome, mergeRecords_cons_of_ok (hsame ▸ houtcome)]
      exact ih (fun other hother ↦ hrecord other (List.mem_cons_of_mem _ hother)) hnext

theorem mergeInPlace_congr (relation : ClassStore → ClassStore → Prop)
    {first second firstTheirs secondTheirs : ClassStore}
    (hsameConflict : first.conflict? firstTheirs = second.conflict? secondTheirs)
    (hsameRecords : firstTheirs.records = secondTheirs.records)
    (hrecord : ∀ record ∈ firstTheirs.records, ∀ first second, relation first second →
      (first.mergeRecord record).2 = (second.mergeRecord record).2 ∧
        relation (first.mergeRecord record).1 (second.mergeRecord record).1)
    (hmask : ∀ first second, relation first second →
      relation (first.mergeMask firstTheirs) (second.mergeMask secondTheirs))
    (hstores : relation first second) :
    (first.mergeInPlace firstTheirs).2 = (second.mergeInPlace secondTheirs).2 ∧
      relation (first.mergeInPlace firstTheirs).1 (second.mergeInPlace secondTheirs).1 := by
  obtain ⟨hsame, hmerged⟩ := mergeRecords_congr relation hrecord hstores
  cases hconflict : first.conflict? firstTheirs with
  | some error =>
    rw [mergeInPlace_of_conflict hconflict, mergeInPlace_of_conflict (hsameConflict ▸ hconflict)]
    exact ⟨rfl, hstores⟩
  | none =>
    have hsecond := hsameConflict ▸ hconflict
    cases houtcome : (first.mergeRecords firstTheirs.records).2 with
    | error error =>
      rw [mergeInPlace_of_error hconflict houtcome,
        mergeInPlace_of_error hsecond (hsameRecords ▸ hsame ▸ houtcome), ← hsameRecords]
      exact ⟨rfl, hmerged⟩
    | ok =>
      rw [mergeInPlace_of_ok hconflict houtcome,
        mergeInPlace_of_ok hsecond (hsameRecords ▸ hsame ▸ houtcome), ← hsameRecords]
      exact ⟨rfl, hmask _ _ hmerged⟩

end ClassStore

/-! ### What no operation changes -/

namespace ClassStore

/-- `f` reads the name of a store and the verdicts that it remembers, and nothing else. -/
def Steady {α : Type} (f : ClassStore → α) : Prop :=
  ∀ (store : ClassStore) table maxLine signatures mask,
    f { store with table, maxLine, signatures, mask } = f store

theorem steady_name : Steady name := fun _ _ _ _ _ ↦ rfl

theorem steady_verdicts : Steady verdicts := fun _ _ _ _ _ ↦ rfl

namespace Steady

variable {α : Type} {f : ClassStore → α}

theorem foldMask (hf : Steady f) (store : ClassStore) : f store.foldMask = f store := by
  unfold ClassStore.foldMask
  split
  · exact hf store _ _ _ _
  · rfl

theorem restructureLine (hf : Steady f) (store : ClassStore) (line : UInt32)
    (g : LineRecord → Option LineRecord) : f (store.restructureLine line g) = f store := by
  unfold ClassStore.restructureLine
  split
  · exact hf store _ _ _ _
  · rfl

theorem densify (hf : Steady f) (store : ClassStore) : f store.densify = f store := by
  unfold ClassStore.densify
  split
  · split
    · exact hf store _ _ _ _
    · rfl
  · rfl

theorem mergeRecord (hf : Steady f) (store : ClassStore) (record : LineRecord) :
    f (store.mergeRecord record).1 = f store := by
  unfold ClassStore.mergeRecord
  dsimp only
  split
  · exact hf store _ _ _ _
  · split <;> exact hf store _ _ _ _

theorem mergeInPlace (hf : Steady f) (store theirs : ClassStore) :
    f (store.mergeInPlace theirs).1 = f store := by
  refine mergeInPlace_preserves (fun merged ↦ f merged = f store) ?_ ?_ rfl
  · exact fun record _ merged hmerged ↦ (hf.mergeRecord merged record).trans hmerged
  · exact fun merged _ hmerged ↦ (hf merged _ _ _ _).trans hmerged

/-- Only a query adds to the verdicts. -/
theorem apply (hf : Steady f) {op : ClassOp} (hop : ∀ signature, op ≠ .methodStatus signature)
    (store : ClassStore) : f (op.apply store) = f store := by
  cases op with
  | addJump line id => exact hf.restructureLine store line _
  | addSwitch line id keys => exact hf.restructureLine store line _
  | removeLine line => exact hf.restructureLine store line _
  | dropLastJump line => exact hf.restructureLine store line _
  | merge theirs => exact hf.mergeInPlace store theirs
  | methodStatus signature => exact absurd rfl (hop signature)
  | save dictionary sink => exact hf.foldMask store
  | densify => exact hf.densify store
  | _ => exact hf store _ _ _ _

end Steady

theorem name_foldMask (store : ClassStore) : store.foldMask.name = store.name :=
  steady_name.foldMask store

theorem name_mergeInPlace (store theirs : ClassStore) :
    (store.mergeInPlace theirs).1.name = store.name :=
  steady_name.mergeInPlace store theirs

end ClassStore

theorem ClassOp.name_apply (op : ClassOp) (store : ClassStore) :
    (op.apply store).name = store.name := by
  by_cases hquery : ∃ signature, op = .methodStatus signature
  · obtain ⟨signature, rfl⟩ := hquery
    simp only [apply, ClassStore.methodStatus]
    split <;> rfl
  · exact ClassStore.steady_name.apply (fun signature hop ↦ hquery ⟨signature, hop⟩) store

/-! ### Reachable stores -/

/-- The store was made by operations. -/
inductive ClassStore.Reachable : ClassStore → Prop
  | fresh (name : String) : Reachable { name }
  | loaded {dictionary : Dictionary} {bytes rest : List UInt8} {store : ClassStore}
    (hdecode : ClassStore.decode dictionary bytes = .ok (store, rest)) : Reachable store
  | operated {store : ClassStore} (op : ClassOp) (hstore : Reachable store)
    (htheirs : ∀ theirs, op = .merge theirs → Reachable theirs) : Reachable (op.apply store)

theorem ClassStore.Reachable.applyAll {store : ClassStore} (hstore : store.Reachable)
    {ops : List ClassOp} (htheirs : ∀ theirs, .merge theirs ∈ ops → theirs.Reachable) :
    (ClassOp.applyAll ops store).Reachable := by
  induction ops generalizing store with
  | nil => exact hstore
  | cons op rest ih =>
    refine ih (.operated op hstore ?_) fun theirs hmem ↦
      htheirs theirs (List.mem_cons_of_mem _ hmem)
    rintro theirs rfl
    exact htheirs theirs List.mem_cons_self

end JvmCoverage
