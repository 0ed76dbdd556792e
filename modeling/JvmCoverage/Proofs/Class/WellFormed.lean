import JvmCoverage.Proofs.Class.Operation
import JvmCoverage.Proofs.Class.Table
import JvmCoverage.Proofs.Line.Sized
/-!
# Well-formed class stores

`ClassStore.WellFormed` is what every operation on a class store relies on and keeps: the line table
is filed up to the highest line of the store, and every record is sized.
`ClassStore.Reachable.wellFormed` proves it for all stores that operations make. Beside it stand the
equations that say which record each operation leaves at each line.
-/

set_option autoImplicit false
set_option relaxedAutoImplicit false

namespace JvmCoverage

open Std (ExtTreeMap)

@[simp] theorem LineRecord.addHits_zero (record : LineRecord) : record.addHits 0 = record := by
  simp [addHits, Counter.add]

namespace ClassStore

/-- The line table is filed up to the highest line, and every record is sized. -/
structure WellFormed (store : ClassStore) : Prop where
  filed : store.table.Filed store.maxLine
  sized : ∀ {line record}, store.line? line = some record → record.Sized

theorem wellFormed_fresh (name : String) : WellFormed { name } where
  filed := LineTable.filed_empty 0
  sized hfound := by cases (LineTable.find?_empty _).symm.trans hfound

variable {store : ClassStore}

/-- A store with the same lines, up to changes of the records that keep their numbers. -/
theorem WellFormed.of_map (hstore : store.WellFormed) {result : ClassStore}
    {f : UInt32 → LineRecord → LineRecord} (hfiled : result.table.Filed result.maxLine)
    (hfind : ∀ line, result.line? line = (store.line? line).map (f line))
    (hsized : ∀ line record, store.line? line = some record → record.Sized →
      (f line record).Sized) : result.WellFormed where
  filed := hfiled
  sized {line record} hfound := by
    rw [hfind] at hfound
    obtain ⟨old, hold, rfl⟩ := Option.map_eq_some_iff.mp hfound
    exact hsized line old hold (hstore.sized hold)

/-! ### Changing records -/

theorem line?_modifyLine (store : ClassStore) (line : UInt32) (f : LineRecord → LineRecord)
    (other : UInt32) :
    (store.modifyLine line f).line? other =
      if other = line then (store.line? other).map f else store.line? other :=
  LineTable.find?_modify store.table line f other

theorem WellFormed.modifyLine (hstore : store.WellFormed) {line : UInt32}
    {f : LineRecord → LineRecord}
    (hline : ∀ record, store.line? line = some record → (f record).line = record.line)
    (hsized : ∀ record, store.line? line = some record → record.Sized → (f record).Sized) :
    (store.modifyLine line f).WellFormed := by
  refine hstore.of_map (f := fun other record ↦ if other = line then f record else record)
    (LineTable.filed_modify hstore.filed hline) ?_ ?_
  · intro other
    rw [line?_modifyLine]
    split <;> simp
  · intro other record hfound hrecord
    by_cases heq : other = line
    · rw [if_pos heq]
      exact hsized record (heq ▸ hfound) hrecord
    · rw [if_neg heq]
      exact hrecord

theorem line?_addMask (store : ClassStore) (mask : CounterBank) (line : UInt32) :
    (store.addMask mask).line? line =
      (store.line? line).map fun record ↦ record.addHits (mask.get line.toNat) :=
  LineTable.find?_mapKeyed store.table _ line

theorem WellFormed.addMask (hstore : store.WellFormed) (mask : CounterBank) :
    (store.addMask mask).WellFormed :=
  hstore.of_map (LineTable.filed_mapKeyed hstore.filed fun _ _ ↦ rfl) (store.line?_addMask mask)
    fun _ _ _ hsized ↦ hsized

/-- What the mask holds for a line, zero without a mask and outside of it. -/
def maskCount (store : ClassStore) (line : UInt32) : UInt32 :=
  store.mask.elim 0 fun mask ↦ mask.get line.toNat

theorem line?_foldMask (store : ClassStore) (line : UInt32) :
    store.foldMask.line? line =
      (store.line? line).map fun record ↦ record.addHits (store.maskCount line) := by
  rw [foldMask, maskCount]
  cases store.mask with
  | some mask => exact line?_addMask store mask line
  | none => simp

theorem WellFormed.foldMask (hstore : store.WellFormed) : store.foldMask.WellFormed := by
  unfold ClassStore.foldMask
  split
  · next mask _ => exact ⟨(hstore.addMask mask).filed, (hstore.addMask mask).sized⟩
  · exact hstore

theorem mask_foldMask (store : ClassStore) : store.foldMask.mask = none := by
  unfold foldMask
  split
  · rfl
  · next hmask => exact hmask

theorem foldMask_of_mask_eq_none {store : ClassStore} (hmask : store.mask = none) :
    store.foldMask = store := by
  rw [foldMask, hmask]

/-- There is nothing left to fold after a mask was folded. -/
theorem foldMask_foldMask (store : ClassStore) : store.foldMask.foldMask = store.foldMask :=
  foldMask_of_mask_eq_none store.mask_foldMask

/-- The fields of a class are made of its records. -/
theorem fields_congr {first second : ClassStore} (hrecords : first.records = second.records)
    (index : UInt32) : first.fields index = second.fields index := by
  have hgroup : first.groupFields = second.groupFields := by
    funext signature
    rw [groupFields, groupFields, recordsOf, recordsOf, hrecords]
  rw [fields, fields, methodSignatures, methodSignatures, hgroup, hrecords]

/-! ### Changing the structure -/

theorem containsLine_eq (store : ClassStore) (line : UInt32) :
    store.containsLine line = (store.line? line).isSome := rfl

theorem line?_ensureLine (hstore : store.WellFormed) (line : UInt32) (signature : String)
    (other : UInt32) :
    (store.ensureLine line signature).line? other =
      if other = line then some ((store.line? line).getD { line, signature })
      else store.line? other :=
  LineTable.find?_alter hstore.filed line _ other

theorem WellFormed.ensureLine (hstore : store.WellFormed) (line : UInt32) (signature : String) :
    (store.ensureLine line signature).WellFormed where
  filed := by
    refine LineTable.filed_alter hstore.filed (le_max_left _ _) fun record hrecord ↦
      ⟨?_, le_max_right _ _⟩
    cases hrecord
    cases hfound : store.table.find? line with
    | none => rfl
    | some record => exact hstore.filed.line_eq hfound
  sized {other record} hfound := by
    rw [line?_ensureLine hstore] at hfound
    by_cases heq : other = line
    · rw [if_pos heq] at hfound
      cases hfound
      cases hold : store.line? line with
      | none => exact LineRecord.sized_fresh line signature
      | some record => exact hstore.sized hold
    · rw [if_neg heq] at hfound
      exact hstore.sized hfound

theorem mask_restructureLine (store : ClassStore) (line : UInt32)
    (f : LineRecord → Option LineRecord) : (store.restructureLine line f).mask = store.mask := by
  unfold restructureLine
  split <;> rfl

theorem line?_restructureLine (hstore : store.WellFormed) (line : UInt32)
    (f : LineRecord → Option LineRecord) (other : UInt32) :
    (store.restructureLine line f).line? other =
      if other = line then (store.line? other).bind f else store.line? other := by
  unfold restructureLine
  by_cases hcontains : store.containsLine line = true
  · rw [if_pos hcontains]
    show (store.table.alter line _).find? other = _
    rw [LineTable.find?_alter hstore.filed]
    by_cases heq : other = line
    · rw [if_pos heq, if_pos heq, heq]
      rfl
    · rw [if_neg heq, if_neg heq]
      rfl
  · rw [if_neg hcontains]
    rw [containsLine_eq, Bool.not_eq_true, Option.isSome_eq_false_iff, Option.isNone_iff_eq_none]
      at hcontains
    by_cases heq : other = line
    · rw [if_pos heq, heq, hcontains]
      rfl
    · rw [if_neg heq]

theorem line?_restructureLine_some (hstore : store.WellFormed) (line : UInt32)
    (f : LineRecord → LineRecord) (other : UInt32) :
    (store.restructureLine line fun record ↦ some (f record)).line? other =
      if other = line then (store.line? other).map f else store.line? other := by
  rw [line?_restructureLine hstore]
  cases store.line? other <;> rfl

theorem WellFormed.restructureLine (hstore : store.WellFormed) (line : UInt32)
    {f : LineRecord → Option LineRecord}
    (hline : ∀ record changed, f record = some changed → changed.line = record.line)
    (hsized : ∀ record changed, f record = some changed → record.Sized → changed.Sized) :
    (store.restructureLine line f).WellFormed where
  filed := by
    unfold ClassStore.restructureLine
    by_cases hcontains : store.containsLine line = true
    · rw [if_pos hcontains]
      refine LineTable.filed_alter hstore.filed UInt32.le_rfl fun changed hchanged ↦ ?_
      obtain ⟨record, hrecord, hf⟩ := Option.bind_eq_some_iff.mp hchanged
      rw [hline record changed hf]
      exact ⟨hstore.filed.line_eq hrecord, hstore.filed.le_maxLine hrecord⟩
    · rw [if_neg hcontains]
      exact hstore.filed
  sized {other changed} hfound := by
    rw [line?_restructureLine hstore] at hfound
    by_cases heq : other = line
    · rw [if_pos heq] at hfound
      obtain ⟨record, hrecord, hf⟩ := Option.bind_eq_some_iff.mp hfound
      exact hsized record changed hf (hstore.sized hrecord)
    · rw [if_neg heq] at hfound
      exact hstore.sized hfound

/-! ### Changing the representation -/

theorem line?_densify (hstore : store.WellFormed) (line : UInt32) :
    store.densify.line? line = store.line? line := by
  unfold densify
  split
  · next lines htable =>
    have hfiled : (LineTable.sparse lines).Filed store.maxLine := htable ▸ hstore.filed
    split
    · show (LineTable.ofMap lines store.maxLine).find? line = store.table.find? line
      rw [LineTable.find?_ofMap_of_filed hfiled, htable]
    · rfl
  · rfl

theorem WellFormed.densify (hstore : store.WellFormed) : store.densify.WellFormed where
  filed := by
    unfold ClassStore.densify
    split
    · next lines htable =>
      split
      · next hmax => exact LineTable.filed_ofMap (htable ▸ hstore.filed) hmax
      · exact hstore.filed
    · exact hstore.filed
  sized hfound := hstore.sized (line?_densify hstore _ ▸ hfound)

/-- The store with its map rebuilt. -/
def rebuilt (store : ClassStore) : ClassStore := { store with table := store.table.rebuild }

theorem line?_rebuilt (hstore : store.WellFormed) (line : UInt32) :
    store.rebuilt.line? line = store.line? line :=
  LineTable.find?_rebuild hstore.filed line

theorem WellFormed.rebuilt (hstore : store.WellFormed) : store.rebuilt.WellFormed where
  filed := LineTable.filed_rebuild hstore.filed
  sized hfound := hstore.sized (line?_rebuilt hstore _ ▸ hfound)

/-! ### Merging -/

/-- A store that differs in its table by a new record at the record's own line, and covers it. -/
theorem WellFormed.of_insert (hstore : store.WellFormed) {result : ClassStore} {record : LineRecord}
    {f : Option LineRecord → Option LineRecord} (hsized : record.Sized)
    (hinsert : f (store.line? record.line) = some record)
    (htable : result.table = store.table.alter record.line f)
    (hmax : result.maxLine = max store.maxLine record.line) : result.WellFormed where
  filed := by
    rw [htable, hmax]
    refine LineTable.filed_alter hstore.filed (le_max_left _ _) fun other hother ↦ ?_
    cases hinsert.symm.trans hother
    exact ⟨rfl, le_max_right _ _⟩
  sized {other found} hfound := by
    rw [line?, htable, LineTable.find?_alter hstore.filed] at hfound
    by_cases heq : other = record.line
    · rw [if_pos heq] at hfound
      cases hinsert.symm.trans hfound
      exact hsized
    · rw [if_neg heq] at hfound
      exact hstore.sized hfound

theorem line?_adopt (hstore : store.WellFormed) (record : LineRecord) (other : UInt32) :
    (store.adopt record).line? other =
      if other = record.line then some record else store.line? other :=
  LineTable.find?_alter hstore.filed record.line _ other

theorem WellFormed.adopt (hstore : store.WellFormed) {record : LineRecord} (hsized : record.Sized) :
    (store.adopt record).WellFormed :=
  hstore.of_insert hsized (f := fun _ ↦ some record) rfl rfl rfl

theorem mergeRecord_of_absent {record : LineRecord}
    (habsent : store.rebuilt.line? record.line = none) :
    store.mergeRecord record = (store.rebuilt.adopt record, .ok ()) := by
  unfold rebuilt at habsent
  simp only [mergeRecord, habsent]
  rfl

theorem mergeRecord_of_merged {record ours merged : LineRecord}
    (hours : store.rebuilt.line? record.line = some ours)
    (hmerge : ours.merge record = .ok merged) :
    store.mergeRecord record =
      (store.rebuilt.modifyLine record.line fun _ ↦ merged, .ok ()) := by
  unfold rebuilt at hours
  simp only [mergeRecord, hours, hmerge]
  rfl

theorem mergeRecord_of_refused {record ours : LineRecord} {error : Failure}
    (hours : store.rebuilt.line? record.line = some ours)
    (hmerge : ours.merge record = .error error) :
    store.mergeRecord record = (store.rebuilt, .error error) := by
  unfold rebuilt at hours
  simp only [mergeRecord, hours, hmerge]
  rfl

theorem WellFormed.mergeRecord (hstore : store.WellFormed) {record : LineRecord}
    (hsized : record.Sized) : (store.mergeRecord record).1.WellFormed := by
  cases hours : store.rebuilt.line? record.line with
  | none =>
    rw [mergeRecord_of_absent hours]
    exact hstore.rebuilt.adopt hsized
  | some ours =>
    cases hmerge : ours.merge record with
    | error error =>
      rw [mergeRecord_of_refused hours hmerge]
      exact hstore.rebuilt
    | ok merged =>
      rw [mergeRecord_of_merged hours hmerge]
      obtain ⟨-, rfl⟩ := LineRecord.merge_eq_ok_iff.mp hmerge
      refine hstore.rebuilt.modifyLine ?_ ?_
      · intro found hfound
        cases hours.symm.trans hfound
        rfl
      · intro found hfound hfoundSized
        cases hours.symm.trans hfound
        exact LineRecord.sized_absorb hfoundSized record

theorem WellFormed.sized_of_mem (hstore : store.WellFormed) {record : LineRecord}
    (hrecord : record ∈ store.records) : record.Sized :=
  hstore.sized ((LineTable.mem_records_iff hstore.filed record).mp hrecord)

theorem WellFormed.mergeMask (hstore : store.WellFormed) (theirs : ClassStore) :
    (store.mergeMask theirs).WellFormed := by
  unfold ClassStore.mergeMask
  split
  · exact hstore.addMask _
  · exact hstore

theorem WellFormed.mergeInPlace (hstore : store.WellFormed) {theirs : ClassStore}
    (htheirs : theirs.WellFormed) : (store.mergeInPlace theirs).1.WellFormed :=
  mergeInPlace_preserves WellFormed
    (fun _ hrecord _ hmerged ↦ hmerged.mergeRecord (htheirs.sized_of_mem hrecord))
    (fun _ mask hmerged ↦ hmerged.addMask mask) hstore

/-! ### Any operation -/

theorem WellFormed.edit (hstore : store.WellFormed) (line : UInt32) (edit : RecordOp) :
    (store.modifyLine line edit.apply).WellFormed :=
  hstore.modifyLine (fun record _ ↦ edit.line_apply record) fun _ _ ↦ edit.sized_apply

theorem WellFormed.restructure (hstore : store.WellFormed) (line : UInt32) (edit : RecordOp) :
    (store.restructureLine line fun record ↦ some (edit.apply record)).WellFormed := by
  refine hstore.restructureLine line (fun record changed hchanged ↦ ?_)
    fun record changed hchanged hsized ↦ ?_
  · cases hchanged
    exact edit.line_apply record
  · cases hchanged
    exact edit.sized_apply hsized

theorem WellFormed.apply (hstore : store.WellFormed) (op : ClassOp)
    (htheirs : ∀ theirs, op = .merge theirs → theirs.WellFormed) : (op.apply store).WellFormed := by
  cases op with
  | ensureLine line signature edits =>
    exact (hstore.ensureLine line signature).modifyLine
      (fun record _ ↦ RecordOp.line_applyAll edits record)
      (fun record _ ↦ RecordOp.sized_applyAll edits)
  | addJump line id => exact hstore.restructure line (.addJump id)
  | addSwitch line id keys => exact hstore.restructure line (.addSwitch id keys)
  | removeLine line =>
    refine hstore.restructureLine line ?_ ?_
    · intro _ _ hnone
      cases hnone
    · intro _ _ hnone
      cases hnone
  | dropLastJump line => exact hstore.restructure line .dropLastJump
  | hitLine line => exact hstore.edit line .hit
  | hitJump line id taken => exact hstore.edit line (.hitJump id taken)
  | hitSwitch line id key => exact hstore.edit line (.hitSwitch id key)
  | openMask maxLine => exact ⟨hstore.filed, hstore.sized⟩
  | hitMask line => exact ⟨hstore.filed, hstore.sized⟩
  | merge theirs => exact hstore.mergeInPlace (htheirs theirs rfl)
  | methodStatus signature =>
    simp only [ClassOp.apply, methodStatus]
    split <;> exact ⟨hstore.filed, hstore.sized⟩
  | save dictionary sink => exact hstore.foldMask
  | densify => exact hstore.densify

/-! ### Reading -/

theorem fileRecord_eq_ok_iff {record : LineRecord} {filed : ClassStore} :
    store.fileRecord record = .ok filed ↔ store.line? record.line = none ∧
      { store with
        table := store.table.alter record.line fun _ ↦ some record
        maxLine := max store.maxLine record.line } = filed := by
  rw [fileRecord, containsLine_eq]
  cases store.line? record.line <;> simp

theorem WellFormed.fileRecord (hstore : store.WellFormed) {record : LineRecord}
    (hsized : record.Sized) {filed : ClassStore} (hfiled : store.fileRecord record = .ok filed) :
    filed.WellFormed := by
  obtain ⟨-, rfl⟩ := fileRecord_eq_ok_iff.mp hfiled
  exact hstore.of_insert hsized (f := fun _ ↦ some record) rfl rfl rfl

theorem WellFormed.decodeRecord (hstore : store.WellFormed) (signature : String) :
    Decoder.Ensures (decodeRecord signature store) WellFormed :=
  Decoder.ensures_bind (LineRecord.sized_decode signature) fun _ hsized ↦
    Decoder.ensures_lift fun _ hfiled ↦ hstore.fileRecord hsized hfiled

theorem WellFormed.decodeGroup (hstore : store.WellFormed) :
    Decoder.Ensures store.decodeGroup WellFormed := by
  refine Decoder.ensures_bind (Decoder.ensures_true _) fun signature _ ↦ ?_
  refine Decoder.ensures_bind (Decoder.ensures_true _) fun length _ ↦ ?_
  exact Decoder.ensures_iterate (fun _ store ↦ WellFormed store)
    (fun _ _ hfiling ↦ hfiling.decodeRecord signature) length 0 ⟨hstore.filed, hstore.sized⟩

theorem wellFormed_decode (dictionary : Dictionary) :
    Decoder.Ensures (decode dictionary) WellFormed := by
  refine Decoder.ensures_bind (Decoder.ensures_true _) fun index _ ↦ ?_
  split
  · exact Decoder.ensures_fail _ _
  · next name _ =>
    refine Decoder.ensures_bind (Decoder.ensures_true _) fun length _ ↦ ?_
    exact Decoder.ensures_iterate (fun _ store ↦ WellFormed store)
      (fun _ _ hfiling ↦ hfiling.decodeGroup) length 0 (wellFormed_fresh name)

/-- Every store that operations make is well-formed. -/
theorem Reachable.wellFormed (hreachable : store.Reachable) : store.WellFormed := by
  induction hreachable with
  | fresh name => exact wellFormed_fresh name
  | loaded hdecode => exact wellFormed_decode _ hdecode
  | operated op _ _ hstore htheirs => exact hstore.apply op htheirs

end ClassStore

end JvmCoverage
