import JvmCoverage.Proofs.Class.WellFormed
/-!
# What holds of every record of a class

A store changes its records one at a time, by the changes that `RecordOp` lists. So what is true of
a fresh record and of a record that was read, and is kept by each of these changes, is true of every
record of every store that operations make (`RecordInvariant.of_reachable`).
-/

set_option autoImplicit false
set_option relaxedAutoImplicit false

namespace JvmCoverage

/-- Records start with the property, and no change takes it from them. -/
structure RecordInvariant (property : LineRecord → Prop) : Prop where
  fresh : ∀ line signature, property { line, signature }
  apply : ∀ (edit : RecordOp) {record : LineRecord}, property record → property (edit.apply record)
  decode : ∀ signature, Decoder.Ensures (LineRecord.decode signature) property

/-- Every record of the store has the property. -/
def ClassStore.AllRecords (property : LineRecord → Prop) (store : ClassStore) : Prop :=
  ∀ line record, store.line? line = some record → property record

namespace RecordInvariant

open ClassStore

variable {property : LineRecord → Prop} {store : ClassStore}

theorem applyAll (hinvariant : RecordInvariant property) (edits : List RecordOp)
    {record : LineRecord} (hrecord : property record) :
    property (RecordOp.applyAll edits record) := by
  induction edits generalizing record with
  | nil => exact hrecord
  | cons edit rest ih => exact ih (hinvariant.apply edit hrecord)

theorem absorb (hinvariant : RecordInvariant property) {ours theirs merged : LineRecord}
    (hours : property ours) (hmerge : ours.merge theirs = .ok merged) : property merged := by
  have happly := hinvariant.apply (.merge theirs) hours
  rwa [RecordOp.apply, hmerge] at happly

/-! ### Changes of a store -/

theorem allRecords_modifyLine (hall : store.AllRecords property) {line : UInt32}
    {f : LineRecord → LineRecord} (hf : ∀ record, property record → property (f record)) :
    (store.modifyLine line f).AllRecords property := by
  intro other changed hchanged
  rw [line?_modifyLine] at hchanged
  split_ifs at hchanged
  · obtain ⟨record, hrecord, rfl⟩ := Option.map_eq_some_iff.mp hchanged
    exact hf record (hall other record hrecord)
  · exact hall other changed hchanged

theorem allRecords_restructureLine (hstore : store.WellFormed) (hall : store.AllRecords property)
    {line : UInt32} {f : LineRecord → Option LineRecord}
    (hf : ∀ record changed, f record = some changed → property record → property changed) :
    (store.restructureLine line f).AllRecords property := by
  intro other changed hchanged
  rw [line?_restructureLine hstore] at hchanged
  split_ifs at hchanged
  · obtain ⟨record, hrecord, heq⟩ := Option.bind_eq_some_iff.mp hchanged
    exact hf record changed heq (hall other record hrecord)
  · exact hall other changed hchanged

theorem allRecords_restructure (hinvariant : RecordInvariant property) (hstore : store.WellFormed)
    (hall : store.AllRecords property) (line : UInt32) (edit : RecordOp) :
    (store.restructureLine line fun record ↦ some (edit.apply record)).AllRecords property := by
  refine allRecords_restructureLine hstore hall fun record changed hchanged hrecord ↦ ?_
  cases hchanged
  exact hinvariant.apply edit hrecord

theorem allRecords_ensureLine (hinvariant : RecordInvariant property) (hstore : store.WellFormed)
    (hall : store.AllRecords property) (line : UInt32) (signature : String) :
    (store.ensureLine line signature).AllRecords property := by
  intro other record hrecord
  rw [line?_ensureLine hstore] at hrecord
  split_ifs at hrecord
  · cases hfound : store.line? line with
    | none =>
      rw [hfound] at hrecord
      cases hrecord
      exact hinvariant.fresh line signature
    | some found =>
      rw [hfound] at hrecord
      cases hrecord
      exact hall line found hfound
  · exact hall other record hrecord

theorem allRecords_addMask (hinvariant : RecordInvariant property)
    (hall : store.AllRecords property) (mask : CounterBank) :
    (store.addMask mask).AllRecords property := by
  intro line changed hchanged
  rw [line?_addMask] at hchanged
  obtain ⟨record, hrecord, rfl⟩ := Option.map_eq_some_iff.mp hchanged
  exact hinvariant.apply (.addHits _) (hall line record hrecord)

theorem allRecords_adopt (hstore : store.WellFormed) (hall : store.AllRecords property)
    {record : LineRecord} (hrecord : property record) :
    (store.adopt record).AllRecords property := by
  intro line found hfound
  rw [line?_adopt hstore] at hfound
  split_ifs at hfound
  · exact Option.some.inj hfound ▸ hrecord
  · exact hall line found hfound

theorem allRecords_mergeRecord (hinvariant : RecordInvariant property) (hstore : store.WellFormed)
    (hall : store.AllRecords property) {record : LineRecord} (hrecord : property record) :
    (store.mergeRecord record).1.AllRecords property := by
  have hrebuilt : store.rebuilt.AllRecords property := fun line found hfound ↦
    hall line found (line?_rebuilt hstore line ▸ hfound)
  cases hours : store.rebuilt.line? record.line with
  | none =>
    rw [mergeRecord_of_absent hours]
    exact allRecords_adopt hstore.rebuilt hrebuilt hrecord
  | some ours =>
    cases hmerge : ours.merge record with
    | error error =>
      rw [mergeRecord_of_refused hours hmerge]
      exact hrebuilt
    | ok merged =>
      rw [mergeRecord_of_merged hours hmerge]
      have hmerged := hinvariant.absorb (hrebuilt record.line ours hours) hmerge
      exact allRecords_modifyLine hrebuilt fun _ _ ↦ hmerged

theorem allRecords_mergeInPlace (hinvariant : RecordInvariant property)
    (hstore : store.WellFormed) (hall : store.AllRecords property) {theirs : ClassStore}
    (htheirs : theirs.WellFormed) (htheirsAll : theirs.AllRecords property) :
    (store.mergeInPlace theirs).1.AllRecords property := by
  refine (mergeInPlace_preserves (fun merged ↦ merged.WellFormed ∧ merged.AllRecords property)
    ?_ ?_ ⟨hstore, hall⟩).2
  · intro record hrecord merged hmerged
    have hfound := (LineTable.mem_records_iff htheirs.filed record).mp hrecord
    exact ⟨hmerged.1.mergeRecord (htheirs.sized_of_mem hrecord),
      hinvariant.allRecords_mergeRecord hmerged.1 hmerged.2 (htheirsAll _ record hfound)⟩
  · exact fun merged mask hmerged ↦
      ⟨hmerged.1.addMask mask, hinvariant.allRecords_addMask hmerged.2 mask⟩

theorem allRecords_apply (hinvariant : RecordInvariant property) (hstore : store.WellFormed)
    (hall : store.AllRecords property) (op : ClassOp)
    (htheirs : ∀ theirs, op = .merge theirs → theirs.WellFormed ∧ theirs.AllRecords property) :
    (op.apply store).AllRecords property := by
  have hedit (line : UInt32) (edit : RecordOp) :
      (store.modifyLine line edit.apply).AllRecords property :=
    allRecords_modifyLine hall fun _ ↦ hinvariant.apply edit
  cases op with
  | ensureLine line signature edits =>
    exact allRecords_modifyLine (hinvariant.allRecords_ensureLine hstore hall line signature)
      fun _ ↦ hinvariant.applyAll edits
  | addJump line id => exact hinvariant.allRecords_restructure hstore hall line (.addJump id)
  | addSwitch line id keys =>
    exact hinvariant.allRecords_restructure hstore hall line (.addSwitch id keys)
  | removeLine line => exact allRecords_restructureLine hstore hall nofun
  | dropLastJump line => exact hinvariant.allRecords_restructure hstore hall line .dropLastJump
  | hitLine line => exact hedit line .hit
  | hitJump line id taken => exact hedit line (.hitJump id taken)
  | hitSwitch line id key => exact hedit line (.hitSwitch id key)
  | openMask maxLine => exact hall
  | hitMask line => exact hall
  | merge theirs =>
    obtain ⟨htheirs, htheirsAll⟩ := htheirs theirs rfl
    exact hinvariant.allRecords_mergeInPlace hstore hall htheirs htheirsAll
  | methodStatus signature =>
    simp only [ClassOp.apply, methodStatus]
    split <;> exact hall
  | save dictionary sink =>
    show store.foldMask.AllRecords property
    unfold foldMask
    split
    · next mask _ => exact hinvariant.allRecords_addMask hall mask
    · exact hall
  | densify =>
    exact fun line record hrecord ↦ hall line record (line?_densify hstore line ▸ hrecord)

/-! ### Reading -/

theorem allRecords_fileRecord (hstore : store.WellFormed) (hall : store.AllRecords property)
    {record : LineRecord} (hrecord : property record) {filed : ClassStore}
    (hfiled : store.fileRecord record = .ok filed) : filed.AllRecords property := by
  obtain ⟨-, rfl⟩ := fileRecord_eq_ok_iff.mp hfiled
  intro line found hfound
  have hlookup :=
    (LineTable.find?_alter hstore.filed record.line (fun _ ↦ some record) line).symm.trans hfound
  split_ifs at hlookup
  · exact Option.some.inj hlookup ▸ hrecord
  · exact hall line found hlookup

theorem allRecords_decodeGroup (hinvariant : RecordInvariant property) (hstore : store.WellFormed)
    (hall : store.AllRecords property) :
    Decoder.Ensures store.decodeGroup fun store ↦ store.WellFormed ∧ store.AllRecords property := by
  refine Decoder.ensures_bind (Decoder.ensures_true _) fun signature _ ↦ ?_
  refine Decoder.ensures_bind (Decoder.ensures_true _) fun length _ ↦ ?_
  refine Decoder.ensures_iterate
    (fun _ (filing : ClassStore) ↦ filing.WellFormed ∧ filing.AllRecords property) ?_ length 0
    ⟨⟨hstore.filed, hstore.sized⟩, hall⟩
  intro _ filing hfiling
  have hread : Decoder.Ensures (LineRecord.decode signature)
      fun record ↦ record.Sized ∧ property record := fun _ _ _ hdecode ↦
    ⟨LineRecord.sized_decode signature hdecode, hinvariant.decode signature hdecode⟩
  refine Decoder.ensures_bind hread fun record hrecord ↦ Decoder.ensures_lift fun filed hfiled ↦ ?_
  exact ⟨hfiling.1.fileRecord hrecord.1 hfiled,
    allRecords_fileRecord hfiling.1 hfiling.2 hrecord.2 hfiled⟩

theorem allRecords_fresh (name : String) : AllRecords property { name } := by
  intro line record hrecord
  cases (LineTable.find?_empty _).symm.trans hrecord

theorem allRecords_decode (hinvariant : RecordInvariant property) (dictionary : Dictionary) :
    Decoder.Ensures (ClassStore.decode dictionary)
      fun store ↦ store.WellFormed ∧ store.AllRecords property := by
  refine Decoder.ensures_bind (Decoder.ensures_true _) fun index _ ↦ ?_
  split
  · exact Decoder.ensures_fail _ _
  · next name _ =>
    refine Decoder.ensures_bind (Decoder.ensures_true _) fun length _ ↦ ?_
    exact Decoder.ensures_iterate
      (fun _ (filing : ClassStore) ↦ filing.WellFormed ∧ filing.AllRecords property)
      (fun _ _ hfiling ↦ hinvariant.allRecords_decodeGroup hfiling.1 hfiling.2) length 0
      ⟨wellFormed_fresh name, allRecords_fresh name⟩

/-- Every record of a store that operations make has the property. -/
theorem of_reachable (hinvariant : RecordInvariant property) (hstore : store.Reachable) :
    store.AllRecords property := by
  induction hstore with
  | fresh name => exact allRecords_fresh name
  | loaded hdecode => exact (hinvariant.allRecords_decode _ hdecode).2
  | operated op hstore htheirsReachable hall htheirs =>
    exact hinvariant.allRecords_apply hstore.wellFormed hall op fun theirs heq ↦
      ⟨(htheirsReachable theirs heq).wellFormed, htheirs theirs heq⟩

end RecordInvariant

end JvmCoverage
