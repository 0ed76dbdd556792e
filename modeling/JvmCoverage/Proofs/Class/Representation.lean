import JvmCoverage.Proofs.Class.Touch
/-!
# The representation of a class store

A store spreads one fact over several fields: a record carries the number of the line that it is
filed under, the highest line decides how large a dense table is, and the signatures name every
owner. `ClassStore.Represented` lists what the fields promise each other.

Part of it is local to a record or to the table and is known of reachable stores from
`ClassStore.WellFormed` and `RecordInvariant`. For the rest, `ClassStore.ExtendsTo` says what no
change of a store takes back: the highest line and the signatures only grow, a record has an owner
that is known, and a mask stays as large as it was opened. Every operation extends the store
(`ClassStore.extendsTo_apply`), and a store that was read extends an empty one
(`ClassStore.extendsTo_decode`), so `ClassStore.represented_applyAll` follows for any run.
-/

set_option autoImplicit false
set_option relaxedAutoImplicit false

namespace JvmCoverage.ClassStore

variable {store result : ClassStore}

/-- What a change of a store keeps: highest line and signatures grow, a record keeps its owner or
has one that is among the signatures, and a mask keeps its size or is that of a class file. -/
structure ExtendsTo (store result : ClassStore) : Prop where
  maxLine_le : store.maxLine ≤ result.maxLine
  signatures : ∀ signature ∈ store.signatures, signature ∈ result.signatures
  owner : ∀ line record, result.line? line = some record → record.signature ∈ result.signatures ∨
    ∃ old, store.line? line = some old ∧ old.signature = record.signature
  mask : ∀ mask, result.mask = some mask → mask.size ≤ highestLineNumber.toNat + 1 ∨
    ∃ old, store.mask = some old ∧ old.size = mask.size

theorem ExtendsTo.refl (store : ClassStore) : store.ExtendsTo store where
  maxLine_le := UInt32.le_rfl
  signatures _ hsignature := hsignature
  owner _ record hrecord := .inr ⟨record, hrecord, rfl⟩
  mask mask hmask := .inr ⟨mask, hmask, rfl⟩

theorem ExtendsTo.trans {middle : ClassStore} (hfirst : store.ExtendsTo middle)
    (hsecond : middle.ExtendsTo result) : store.ExtendsTo result where
  maxLine_le := UInt32.le_trans hfirst.maxLine_le hsecond.maxLine_le
  signatures signature hsignature :=
    hsecond.signatures signature (hfirst.signatures signature hsignature)
  owner line record hrecord := by
    rcases hsecond.owner line record hrecord with hknown | ⟨changed, hchanged, howner⟩
    · exact .inl hknown
    rcases hfirst.owner line changed hchanged with hknown | ⟨old, hold, holdOwner⟩
    · exact .inl (hsecond.signatures _ (howner ▸ hknown))
    · exact .inr ⟨old, hold, holdOwner.trans howner⟩
  mask mask hmask := by
    rcases hsecond.mask mask hmask with hsize | ⟨changed, hchanged, hsame⟩
    · exact .inl hsize
    rcases hfirst.mask changed hchanged with hsize | ⟨old, hold, holdSame⟩
    · exact .inl (hsame ▸ hsize)
    · exact .inr ⟨old, hold, holdSame.trans hsame⟩

/-- Every record has an owner that is among the signatures. -/
def Interned (store : ClassStore) : Prop := store.AllRecords (·.signature ∈ store.signatures)

/-- A mask has no more slots than a class file has line numbers. -/
def MaskFits (store : ClassStore) : Prop :=
  ∀ mask, store.mask = some mask → mask.size ≤ highestLineNumber.toNat + 1

theorem ExtendsTo.interned (hextends : store.ExtendsTo result) (hstore : store.Interned) :
    result.Interned := by
  intro line record hrecord
  rcases hextends.owner line record hrecord with hknown | ⟨old, hold, howner⟩
  · exact hknown
  · exact hextends.signatures _ (howner ▸ hstore line old hold)

theorem ExtendsTo.maskFits (hextends : store.ExtendsTo result) (hstore : store.MaskFits) :
    result.MaskFits := by
  intro mask hmask
  rcases hextends.mask mask hmask with hsize | ⟨old, hold, hsame⟩
  · exact hsize
  · exact hsame ▸ hstore old hold

/-! ### Changes that keep the owners -/

/-- A change of the table alone that gives no line another owner. -/
theorem extendsTo_of_owners {table : LineTable}
    (howner : ∀ line record, table.find? line = some record →
      ∃ old, store.line? line = some old ∧ old.signature = record.signature) :
    store.ExtendsTo { store with table } where
  maxLine_le := UInt32.le_rfl
  signatures _ hsignature := hsignature
  owner line record hrecord := .inr (howner line record hrecord)
  mask mask hmask := .inr ⟨mask, hmask, rfl⟩

theorem extendsTo_modifyLine {line : UInt32} {f : LineRecord → LineRecord}
    (hf : ∀ record, store.line? line = some record → (f record).signature = record.signature) :
    store.ExtendsTo (store.modifyLine line f) := by
  refine extendsTo_of_owners fun other changed hchanged ↦ ?_
  have hlookup := (line?_modifyLine store line f other).symm.trans hchanged
  split_ifs at hlookup with heq
  · obtain ⟨record, hrecord, rfl⟩ := Option.map_eq_some_iff.mp hlookup
    exact ⟨record, hrecord, (hf record (heq ▸ hrecord)).symm⟩
  · exact ⟨changed, hlookup, rfl⟩

theorem extendsTo_restructureLine (hstore : store.WellFormed) {line : UInt32}
    {f : LineRecord → Option LineRecord}
    (hf : ∀ record changed, f record = some changed → changed.signature = record.signature) :
    store.ExtendsTo (store.restructureLine line f) := by
  unfold restructureLine
  split_ifs
  · refine extendsTo_of_owners fun other changed hchanged ↦ ?_
    rw [LineTable.find?_alter hstore.filed] at hchanged
    split_ifs at hchanged with heq
    · obtain ⟨record, hrecord, hkept⟩ := Option.bind_eq_some_iff.mp hchanged
      exact ⟨record, heq ▸ hrecord, (hf record changed hkept).symm⟩
    · exact ⟨changed, hchanged, rfl⟩
  · exact .refl store

theorem extendsTo_restructure (hstore : store.WellFormed) (line : UInt32) (edit : RecordOp) :
    store.ExtendsTo (store.restructureLine line fun record ↦ some (edit.apply record)) := by
  refine extendsTo_restructureLine hstore fun record changed hchanged ↦ ?_
  cases hchanged
  exact edit.signature_apply record

theorem extendsTo_addMask (store : ClassStore) (mask : CounterBank) :
    store.ExtendsTo (store.addMask mask) := by
  refine extendsTo_of_owners fun line changed hchanged ↦ ?_
  have hlookup := (line?_addMask store mask line).symm.trans hchanged
  obtain ⟨record, hrecord, rfl⟩ := Option.map_eq_some_iff.mp hlookup
  exact ⟨record, hrecord, rfl⟩

theorem extendsTo_rebuilt (hstore : store.WellFormed) : store.ExtendsTo store.rebuilt :=
  extendsTo_of_owners fun line record hrecord ↦
    ⟨record, (line?_rebuilt hstore line).symm.trans hrecord, rfl⟩

theorem extendsTo_densify (hstore : store.WellFormed) : store.ExtendsTo store.densify := by
  unfold densify
  split
  · next lines htable =>
    have hfiled : (LineTable.sparse lines).Filed store.maxLine := htable ▸ hstore.filed
    split
    · refine extendsTo_of_owners fun line record hrecord ↦ ⟨record, ?_, rfl⟩
      rwa [LineTable.find?_ofMap_of_filed hfiled, ← htable] at hrecord
    · exact .refl store
  · exact .refl store

/-! ### Changes of the mask and of the signatures -/

theorem extendsTo_of_mask {mask? : Option CounterBank}
    (hmask : ∀ mask, mask? = some mask → mask.size ≤ highestLineNumber.toNat + 1 ∨
      ∃ old, store.mask = some old ∧ old.size = mask.size) :
    store.ExtendsTo { store with mask := mask? } :=
  ⟨UInt32.le_rfl, fun _ hsignature ↦ hsignature,
    fun _ record hrecord ↦ .inr ⟨record, hrecord, rfl⟩, hmask⟩

theorem extendsTo_openMask (store : ClassStore) (maxLine : UInt32) :
    store.ExtendsTo (store.openMask maxLine) := by
  refine extendsTo_of_mask fun mask hmask ↦ .inl ?_
  have hle : (min maxLine highestLineNumber).toNat ≤ highestLineNumber.toNat := by
    show (if maxLine ≤ highestLineNumber then maxLine else highestLineNumber).toNat ≤ _
    split_ifs with hmax
    · exact UInt32.le_iff_toNat_le.mp hmax
    · exact Nat.le_refl _
  cases hmask
  simpa [CounterBank.zeros, CounterBank.size] using hle

theorem extendsTo_hitMask (store : ClassStore) (line : UInt32) :
    store.ExtendsTo (store.hitMask line) := by
  refine extendsTo_of_mask fun mask hmask ↦ .inr ?_
  obtain ⟨old, hold, rfl⟩ := Option.map_eq_some_iff.mp hmask
  exact ⟨old, hold, by simp [CounterBank.hit, CounterBank.size]⟩

theorem extendsTo_foldMask (store : ClassStore) : store.ExtendsTo store.foldMask := by
  unfold foldMask
  split
  · exact (extendsTo_addMask store _).trans (extendsTo_of_mask nofun)
  · exact .refl store

theorem mem_insert_of_mem {signatures : Std.ExtTreeSet String} (added : String) :
    ∀ signature ∈ signatures, signature ∈ signatures.insert added :=
  fun _ hsignature ↦ Std.ExtTreeSet.mem_insert.mpr (.inr hsignature)

theorem extendsTo_intern (store : ClassStore) (signature : String)
    (verdicts : Std.ExtTreeMap String Status) :
    store.ExtendsTo
      { store with signatures := store.signatures.insert signature, verdicts := verdicts } where
  maxLine_le := UInt32.le_rfl
  signatures := mem_insert_of_mem signature
  owner _ record hrecord := .inr ⟨record, hrecord, rfl⟩
  mask mask hmask := .inr ⟨mask, hmask, rfl⟩

theorem extendsTo_methodStatus (store : ClassStore) (signature : String) :
    store.ExtendsTo (store.methodStatus signature).2 := by
  unfold methodStatus
  split
  · exact .refl store
  · exact extendsTo_intern store signature _

/-! ### Changes that bring in a record -/

/-- A store with one record more, whose owner is among the signatures, and that covers its line. -/
theorem extendsTo_of_insert {line : UInt32} {added : LineRecord}
    (hmax : store.maxLine ≤ result.maxLine)
    (hsignatures : ∀ signature ∈ store.signatures, signature ∈ result.signatures)
    (hmask : result.mask = store.mask)
    (hfind : ∀ other, result.line? other = if other = line then some added else store.line? other)
    (howner : added.signature ∈ result.signatures ∨
      ∃ old, store.line? line = some old ∧ old.signature = added.signature) :
    store.ExtendsTo result where
  maxLine_le := hmax
  signatures := hsignatures
  owner other record hrecord := by
    rw [hfind] at hrecord
    split_ifs at hrecord with heq
    · cases hrecord
      exact heq ▸ howner
    · exact .inr ⟨record, hrecord, rfl⟩
  mask mask hresult := .inr ⟨mask, hmask ▸ hresult, rfl⟩

theorem extendsTo_ensureLine (hstore : store.WellFormed) (line : UInt32) (signature : String) :
    store.ExtendsTo (store.ensureLine line signature) := by
  refine extendsTo_of_insert (le_max_left _ _) (mem_insert_of_mem signature) rfl
    (line?_ensureLine hstore line signature) ?_
  cases hfound : store.line? line with
  | none => exact .inl Std.ExtTreeSet.mem_insert_self
  | some record => exact .inr ⟨record, rfl, rfl⟩

theorem extendsTo_adopt (hstore : store.WellFormed) (record : LineRecord) :
    store.ExtendsTo (store.adopt record) :=
  extendsTo_of_insert (le_max_left _ _) (mem_insert_of_mem record.signature) rfl
    (line?_adopt hstore record) (.inl Std.ExtTreeSet.mem_insert_self)

theorem extendsTo_mergeRecord (hstore : store.WellFormed) (record : LineRecord) :
    store.ExtendsTo (store.mergeRecord record).1 := by
  refine (extendsTo_rebuilt hstore).trans ?_
  cases hours : store.rebuilt.line? record.line with
  | none =>
    rw [mergeRecord_of_absent hours]
    exact extendsTo_adopt hstore.rebuilt record
  | some ours =>
    cases hmerge : ours.merge record with
    | error error =>
      rw [mergeRecord_of_refused hours hmerge]
      exact .refl _
    | ok merged =>
      rw [mergeRecord_of_merged hours hmerge]
      refine extendsTo_modifyLine fun found hfound ↦ ?_
      obtain ⟨-, rfl⟩ := LineRecord.merge_eq_ok_iff.mp hmerge
      cases hours.symm.trans hfound
      rfl

theorem extendsTo_mergeInPlace (hstore : store.WellFormed) {theirs : ClassStore}
    (htheirs : theirs.WellFormed) : store.ExtendsTo (store.mergeInPlace theirs).1 := by
  refine (mergeInPlace_preserves (fun merged ↦ merged.WellFormed ∧ store.ExtendsTo merged)
    ?_ ?_ ⟨hstore, .refl store⟩).2
  · exact fun record hrecord merged hmerged ↦
      ⟨hmerged.1.mergeRecord (htheirs.sized_of_mem hrecord),
        hmerged.2.trans (extendsTo_mergeRecord hmerged.1 record)⟩
  · exact fun merged mask hmerged ↦
      ⟨hmerged.1.addMask mask, hmerged.2.trans (extendsTo_addMask merged mask)⟩

/-! ### Any operation -/

theorem extendsTo_apply (hstore : store.WellFormed) (op : ClassOp)
    (htheirs : ∀ theirs, op = .merge theirs → theirs.WellFormed) :
    store.ExtendsTo (op.apply store) := by
  have hedit (line : UInt32) (edit : RecordOp) :
      store.ExtendsTo (store.modifyLine line edit.apply) :=
    extendsTo_modifyLine fun record _ ↦ edit.signature_apply record
  cases op with
  | ensureLine line signature edits =>
    exact (extendsTo_ensureLine hstore line signature).trans
      (extendsTo_modifyLine fun record _ ↦ RecordOp.signature_applyAll edits record)
  | addJump line id => exact extendsTo_restructure hstore line (.addJump id)
  | addSwitch line id keys => exact extendsTo_restructure hstore line (.addSwitch id keys)
  | removeLine line => exact extendsTo_restructureLine hstore nofun
  | dropLastJump line => exact extendsTo_restructure hstore line .dropLastJump
  | hitLine line => exact hedit line .hit
  | hitJump line id taken => exact hedit line (.hitJump id taken)
  | hitSwitch line id key => exact hedit line (.hitSwitch id key)
  | openMask maxLine => exact extendsTo_openMask store maxLine
  | hitMask line => exact extendsTo_hitMask store line
  | merge theirs => exact extendsTo_mergeInPlace hstore (htheirs theirs rfl)
  | methodStatus signature => exact extendsTo_methodStatus store signature
  | save dictionary sink => exact extendsTo_foldMask store
  | densify => exact extendsTo_densify hstore

theorem Reachable.extendsTo_applyAll (hstore : store.Reachable) {ops : List ClassOp}
    (htheirs : ∀ theirs, .merge theirs ∈ ops → theirs.Reachable) :
    store.ExtendsTo (ClassOp.applyAll ops store) := by
  induction ops generalizing store with
  | nil => exact .refl store
  | cons op rest ih =>
    have hop (theirs : ClassStore) (heq : op = .merge theirs) : theirs.Reachable :=
      htheirs theirs (heq ▸ List.mem_cons_self)
    have hnext := extendsTo_apply hstore.wellFormed op fun theirs heq ↦ (hop theirs heq).wellFormed
    exact hnext.trans (ih (.operated op hstore hop) fun theirs hmem ↦
      htheirs theirs (List.mem_cons_of_mem op hmem))

/-! ### Reading -/

theorem extendsTo_fileRecord (hstore : store.WellFormed) {record : LineRecord}
    (howner : record.signature ∈ store.signatures) {filed : ClassStore}
    (hfiled : store.fileRecord record = .ok filed) : store.ExtendsTo filed := by
  obtain ⟨-, rfl⟩ := fileRecord_eq_ok_iff.mp hfiled
  exact extendsTo_of_insert (le_max_left _ _) (fun _ hother ↦ hother) rfl
    (LineTable.find?_alter hstore.filed record.line fun _ ↦ some record) (.inl howner)

theorem extendsTo_decodeGroup (hstore : store.WellFormed) :
    Decoder.Ensures store.decodeGroup fun read ↦ read.WellFormed ∧ store.ExtendsTo read := by
  refine Decoder.ensures_bind (Decoder.ensures_true _) fun signature _ ↦ ?_
  refine Decoder.ensures_bind (Decoder.ensures_true _) fun length _ ↦ ?_
  let entered : ClassStore := { store with signatures := store.signatures.insert signature }
  have hentered : store.ExtendsTo entered := extendsTo_intern store signature store.verdicts
  -- The owner of the group is interned before its lines are read, and stays so.
  have hlines : Decoder.Ensures (Decoder.iterate (decodeRecord signature) length entered)
      fun read ↦ read.WellFormed ∧ entered.ExtendsTo read := by
    refine Decoder.ensures_iterate
      (fun _ read ↦ WellFormed read ∧ entered.ExtendsTo read) ?_ length 0
      ⟨⟨hstore.filed, hstore.sized⟩, .refl entered⟩
    intro _ filing hfiling
    refine Decoder.ensures_bind (LineRecord.asRead_decode signature) fun record hrecord ↦
      Decoder.ensures_lift fun filed hfiled ↦ ?_
    have howner : record.signature ∈ filing.signatures :=
      hfiling.2.signatures _ (hrecord.signature_eq ▸ Std.ExtTreeSet.mem_insert_self)
    exact ⟨hfiling.1.fileRecord hrecord.sized hfiled,
      hfiling.2.trans (extendsTo_fileRecord hfiling.1 howner hfiled)⟩
  exact fun bytes read rest hread ↦
    ⟨(hlines hread).1, hentered.trans (hlines hread).2⟩

/-- A store that was read extends an empty one. -/
theorem extendsTo_decode (dictionary : Dictionary) :
    Decoder.Ensures (decode dictionary) fun read ↦ ∃ name, ExtendsTo { name } read := by
  refine Decoder.ensures_bind (Decoder.ensures_true _) fun index _ ↦ ?_
  split
  · exact Decoder.ensures_fail _ _
  · next name _ =>
    refine Decoder.ensures_bind (Decoder.ensures_true _) fun length _ ↦ ?_
    have hgroups : Decoder.Ensures (Decoder.iterate decodeGroup length { name })
        fun read ↦ read.WellFormed ∧ ExtendsTo { name } read := by
      refine Decoder.ensures_iterate (fun _ read ↦ WellFormed read ∧ ExtendsTo { name } read) ?_
        length 0 ⟨wellFormed_fresh name, .refl _⟩
      intro _ filing hfiling _ read _ hgroup
      obtain ⟨hread, hextends⟩ := extendsTo_decodeGroup hfiling.1 hgroup
      exact ⟨hread, hfiling.2.trans hextends⟩
    exact fun _ _ _ hread ↦ ⟨name, (hgroups hread).2⟩

/-- Every store that operations make extends an empty one. -/
theorem Reachable.exists_extendsTo (hstore : store.Reachable) :
    ∃ name, ExtendsTo { name } store := by
  induction hstore with
  | fresh name => exact ⟨name, .refl _⟩
  | loaded hdecode => exact extendsTo_decode _ hdecode
  | operated op hstore htheirs ih =>
    obtain ⟨name, hextends⟩ := ih
    exact ⟨name, hextends.trans (extendsTo_apply hstore.wellFormed op fun theirs heq ↦
      (htheirs theirs heq).wellFormed)⟩

theorem Reachable.interned (hstore : store.Reachable) : store.Interned := by
  obtain ⟨name, hextends⟩ := hstore.exists_extendsTo
  exact hextends.interned (RecordInvariant.allRecords_fresh name)

theorem Reachable.maskFits (hstore : store.Reachable) : store.MaskFits := by
  obtain ⟨_, hextends⟩ := hstore.exists_extendsTo
  exact hextends.maskFits nofun

/-! ### The whole invariant -/

/-- What the fields of a store promise each other. -/
structure Represented (store : ClassStore) : Prop where
  /-- A record is filed under its own line number, and the highest line is not below it. -/
  filed : ∀ line record, store.line? line = some record →
    record.line = line ∧ line ≤ store.maxLine
  /-- A dense table has a slot per line up to the highest, which a class file can hold, and each
  slot holds the record of its own line. -/
  dense : ∀ slots, store.table = .dense slots →
    slots.size = store.maxLine.toNat + 1 ∧ store.maxLine ≤ 65535 ∧
      ∀ (slot : Nat) (record : LineRecord),
        slots[slot]? = some (some record) → record.line.toNat = slot
  owner : ∀ line record, store.line? line = some record → record.signature ∈ store.signatures
  jumpIds : ∀ line record, store.line? line = some record →
    (record.jumps.toList.map JumpRecord.id).Nodup
  switchIds : ∀ line record, store.line? line = some record →
    (record.switches.toList.map SwitchRecord.id).Nodup
  arms : ∀ line record, store.line? line = some record →
    ∀ switch ∈ record.switches, switch.arms.size = switch.keys.arity
  mask : ∀ mask, store.mask = some mask → mask.size ≤ 65536

theorem Reachable.represented (hstore : store.Reachable) : store.Represented where
  filed line record hrecord :=
    ⟨hstore.wellFormed.filed.line_eq hrecord, hstore.wellFormed.filed.le_maxLine hrecord⟩
  dense slots htable := by
    have hfiled : (LineTable.dense slots).Filed store.maxLine := htable ▸ hstore.wellFormed.filed
    exact ⟨hfiled.size_eq rfl, hfiled.maxLine_le rfl, fun _ _ ↦
      LineTable.toNat_line_of_getElem? hfiled⟩
  owner := hstore.interned
  jumpIds line record hrecord :=
    (recordInvariant_distinctIds.of_reachable hstore line record hrecord).jumps
  switchIds line record hrecord :=
    (recordInvariant_distinctIds.of_reachable hstore line record hrecord).switches
  arms line record hrecord switch hswitch := hstore.wellFormed.sized hrecord switch hswitch
  mask := hstore.maskFits

/-- Whatever was done to a store, its fields agree, and its highest line is not below that of any
store before it. -/
theorem represented_applyAll (hstore : store.Reachable) {ops : List ClassOp}
    (htheirs : ∀ theirs, .merge theirs ∈ ops → theirs.Reachable) :
    (ClassOp.applyAll ops store).Represented ∧
      store.maxLine ≤ (ClassOp.applyAll ops store).maxLine :=
  ⟨(hstore.applyAll htheirs).represented, (hstore.extendsTo_applyAll htheirs).maxLine_le⟩

/-- A dense store takes over a line above its highest one and is made dense again. -/
theorem represented_applyAll_of_densified_merge :
    let fresh : ClassStore := { name := "C" }
    let theirs := ClassOp.applyAll [.ensureLine 9 "n()V" [.addSwitch 0 (.range 1 3)]] fresh
    let ops : List ClassOp := [.ensureLine 4 "m()V" [.addJump 2, .addJump 0], .openMask 12,
      .densify, .merge theirs, .densify]
    let result := ClassOp.applyAll ops fresh
    fresh.Reachable ∧ (∀ other, .merge other ∈ ops → other.Reachable) ∧ result.Represented ∧
      fresh.maxLine ≤ result.maxLine ∧ result.maxLine = 9 ∧ result.isDense = true ∧
      (∃ record, result.line? 9 = some record ∧ record.line = 9 ∧
        record.signature ∈ result.signatures) := by
  intro fresh theirs ops result
  have hfresh : fresh.Reachable := .fresh "C"
  have htheirs (other : ClassStore) (hmerge : .merge other ∈ ops) : other.Reachable := by
    obtain rfl : other = theirs := by simpa [ops] using hmerge
    exact hfresh.applyAll (by simp)
  obtain ⟨hresult, hmaxLine⟩ := represented_applyAll hfresh htheirs
  have hfound : (result.line? 9).isSome = true := by decide +kernel
  obtain ⟨record, hrecord⟩ := Option.isSome_iff_exists.mp hfound
  exact ⟨hfresh, htheirs, hresult, hmaxLine, by decide +kernel, by decide +kernel, record,
    hrecord, (hresult.filed 9 record hrecord).1, hresult.owner 9 record hrecord⟩

end JvmCoverage.ClassStore
