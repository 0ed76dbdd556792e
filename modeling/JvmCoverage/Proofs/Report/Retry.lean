import JvmCoverage.Proofs.Class.RoundTrip
import JvmCoverage.Proofs.Field.Text
import JvmCoverage.Proofs.Report.Saving
/-!
# A failed save can be repeated

A save folds the mask of each class just before it writes the class, so a save that fails leaves a
report of which some masks are folded and others are not. Its fields are still those of the report
before (`Report.PartlyFolded.fields_eq`), and the next attempt writes the same bytes from the start.
`Report.saveSeries_spec` says what comes of any series of attempts, each on a sink of its own.
-/

set_option autoImplicit false
set_option relaxedAutoImplicit false

namespace JvmCoverage

/-! ### The texts of a report -/

theorem LineRecord.text_not_mem_fields (record : LineRecord) (text : String) :
    .text text ∉ record.fields := by
  have hkeys (keys : CaseKeys) : .text text ∉ keys.fields := by
    cases keys <;> simp [CaseKeys.fields, Field.count]
  simp [fields, JumpRecord.fields, SwitchRecord.fields, Field.count, hkeys]

theorem ClassStore.mem_records_of_text {store : ClassStore} {index : UInt32} {text : String}
    (htext : .text text ∈ store.fields index) :
    ∃ record ∈ store.records, record.signature = text := by
  rw [← mem_methodSignatures_iff]
  simpa [fields, groupFields, Field.count, LineRecord.text_not_mem_fields] using htext

namespace Report

variable {report : Report}

/-- The names of the classes and the signatures of the lines are within the limit of a field. -/
structure TextsFit (report : Report) : Prop where
  name : ∀ name store, report.class? name = some store → Field.TextFits name
  signature : ∀ name store line record, report.class? name = some store →
    store.line? line = some record → Field.TextFits record.signature

theorem textsFit_empty : TextsFit {} where
  name name store hstore := by simp [class?] at hstore
  signature name store line record hstore := by simp [class?] at hstore

theorem TextsFit.insert (htexts : report.TextsFit) {store : ClassStore} (hstore : store.Reachable)
    (hname : Field.TextFits store.name)
    (hsignatures : ∀ record ∈ store.records, Field.TextFits record.signature) :
    (report.insert store).TextsFit where
  name name found hfound := by
    rw [class?_insert] at hfound
    split_ifs at hfound with hsame
    · exact hsame ▸ hname
    · exact htexts.name name found hfound
  signature name found line record hfound hrecord := by
    rw [class?_insert] at hfound
    split_ifs at hfound with hsame
    · cases hfound
      have hline := hstore.wellFormed.filed.line_eq hrecord
      exact hsignatures record
        ((LineTable.mem_records_iff hstore.wellFormed.filed record).mpr (hline ▸ hrecord))
    · exact htexts.signature name found line record hfound hrecord

theorem TextsFit.exists_encodeAll (htexts : report.TextsFit) (hfiled : report.Filed) :
    ∃ bytes, Field.encodeAll report.fields = .ok bytes := by
  refine Field.exists_encodeAll fun text hmem ↦ ?_
  rcases List.mem_append.mp hmem with hname | hclass
  · have hkey : text ∈ report.classes.keys := by
      rw [header, dictionary_eq] at hname
      simpa [magic, formatVersion, Dictionary.fields, Field.count] using hname
    obtain ⟨store, hstore⟩ := Option.isSome_iff_exists.mp
      (Std.ExtTreeMap.mem_iff_isSome_getElem?.mp (Std.ExtTreeMap.mem_keys.mp hkey))
    exact htexts.name text store hstore
  · obtain ⟨store, hmem, htext⟩ := List.mem_flatMap.mp hclass
    have hstore := (mem_stores_iff hfiled).mp hmem
    have hfolded := (hfiled _ store hstore).2.wellFormed.foldMask
    obtain ⟨record, hrecord, rfl⟩ := ClassStore.mem_records_of_text htext
    have hline := (LineTable.mem_records_iff hfolded.filed record).mp hrecord
    change store.foldMask.line? record.line = some record at hline
    rw [ClassStore.line?_foldMask] at hline
    obtain ⟨plain, hplain, heq⟩ := Option.map_eq_some_iff.mp hline
    rw [← heq]
    exact htexts.signature store.name store record.line plain hstore hplain

/-! ### One attempt -/

/-- What an attempt on a sink leaves when the report is written as the given bytes: the sink has
what it has room for, and only a sink that has room for everything and can be flushed makes the
attempt succeed. -/
structure Attempt (bytes : List UInt8) (sink : Sink) (save : ReportSave) : Prop where
  outcome_iff : save.outcome = .ok () ↔
    bytes.length ≤ sink.capacity.getD bytes.length ∧ sink.refusesFlush = false
  written_eq : save.sink.written.toList =
    bytes.take (min (sink.capacity.getD bytes.length) bytes.length)

theorem attempt_save (hfiled : report.Filed) {bytes : List UInt8}
    (hbytes : Field.encodeAll report.fields = .ok bytes) {sink : Sink}
    (hfresh : sink.written = .empty) : Attempt bytes sink (report.save sink) := by
  obtain ⟨hwritten, hok⟩ := Sink.accept_fresh hfresh bytes
  refine ⟨?_, ?_⟩
  · rw [outcome_save hfiled, sink.writeAll_eq_accept hbytes, ← hok]
    have hflush : sink.flush = .ok () ↔ sink.refusesFlush = false := by
      unfold Sink.flush
      cases sink.refusesFlush <;> simp
    rw [← hflush]
    cases (sink.accept bytes).2 <;> simp [Except.bind]
  · rw [sink_save hfiled, sink.writeAll_eq_accept hbytes, hwritten, toList_toByteArray,
      ← List.take_take, List.take_length]

/-! ### A series of attempts -/

/-- The attempts to save a report on one sink after another. -/
def saveSeries (report : Report) : List Sink → List ReportSave
  | [] => []
  | sink :: rest => report.save sink :: (report.save sink).report.saveSeries rest

theorem partlyFolded_of_mem_saveSeries {sinks : List Sink} {save : ReportSave}
    (hmem : save ∈ report.saveSeries sinks) : PartlyFolded report save.report := by
  induction sinks generalizing report with
  | nil => exact absurd hmem List.not_mem_nil
  | cons sink rest ih =>
    have hfirst := (report.partlyFolded_save sink).1
    rcases List.mem_cons.mp hmem with rfl | hmem
    · exact hfirst
    · exact hfirst.trans (ih hmem)

/-- Every attempt of a series writes the bytes that the first one should have written. -/
theorem forall_attempt_saveSeries {original : Report} (horiginal : original.Filed)
    {bytes : List UInt8} (hbytes : Field.encodeAll original.fields = .ok bytes) {sinks : List Sink}
    (hfresh : ∀ sink ∈ sinks, sink.written = .empty) (hfiled : report.Filed)
    (hfolded : PartlyFolded original report) :
    List.Forall₂ (fun sink save ↦ Attempt bytes sink save ∧ save.report.SavedAs bytes) sinks
      (report.saveSeries sinks) := by
  induction sinks generalizing report with
  | nil => exact .nil
  | cons sink rest ih =>
    have hfields := hfolded.fields_eq horiginal hfiled
    have hnextFiled := hfiled.save sink
    have hnext := hfolded.trans (report.partlyFolded_save sink).1
    have hnextFields := hnext.fields_eq horiginal hnextFiled
    refine .cons ⟨attempt_save hfiled (hfields ▸ hbytes) (hfresh sink List.mem_cons_self),
      (savedAs_iff hnextFiled).mpr (hnextFields ▸ hbytes)⟩ ?_
    exact ih (fun other hmem ↦ hfresh other (List.mem_cons_of_mem _ hmem)) hnextFiled hnext

/-- From the first attempt that succeeds on, all masks are folded. -/
theorem pairwise_fullyFolded_saveSeries {original : Report} (sinks : List Sink)
    (hfolded : PartlyFolded original report) :
    (∀ save ∈ report.saveSeries sinks, save.outcome = .ok () → FullyFolded original save.report) ∧
      (report.saveSeries sinks).Pairwise fun earlier later ↦
        earlier.outcome = .ok () → FullyFolded original later.report := by
  induction sinks generalizing report with
  | nil => exact ⟨by simp [saveSeries], .nil⟩
  | cons sink rest ih =>
    obtain ⟨hpartly, hfully⟩ := report.partlyFolded_save sink
    obtain ⟨hall, hpairs⟩ := ih (hfolded.trans hpartly)
    have hfirst (hok : (report.save sink).outcome = .ok ()) :
        FullyFolded original (report.save sink).report := hfolded.trans_fully (hfully hok)
    refine ⟨List.forall_mem_cons.mpr ⟨hfirst, hall⟩, List.pairwise_cons.mpr ⟨?_, hpairs⟩⟩
    exact fun later hlater hok ↦
      (hfirst hok).trans_partly (partlyFolded_of_mem_saveSeries hlater)

/-! ### Counts of the masks -/

/-- The counts of the mask were added to the records, and the mask is gone. -/
structure MaskAdded (store later : ClassStore) : Prop where
  mask_eq : later.mask = none
  line?_eq : ∀ line, later.line? line =
    (store.line? line).map (·.addHits (store.maskCount line))
  hits_eq : ∀ line record, store.line? line = some record → ∃ added,
    later.line? line = some added ∧ added.hits.value = record.hits.value + store.maskCount line

theorem maskAdded_foldMask (store : ClassStore) : MaskAdded store store.foldMask where
  mask_eq := store.mask_foldMask
  line?_eq := store.line?_foldMask
  hits_eq line record hrecord := ⟨_, by rw [store.line?_foldMask, hrecord, Option.map_some], rfl⟩

/-- The counts of each mask were added to the records once, or they are still in the mask. -/
def AddedOnceAtMost (report after : Report) : Prop :=
  ∀ name, Option.Rel (fun store later ↦ later = store ∨ MaskAdded store later)
    (report.class? name) (after.class? name)

/-- The counts of each mask were added to the records once. -/
def AddedOnce (report after : Report) : Prop :=
  ∀ name, Option.Rel MaskAdded (report.class? name) (after.class? name)

theorem PartlyFolded.addedOnceAtMost {after : Report} (hfolded : PartlyFolded report after) :
    AddedOnceAtMost report after := by
  intro name
  rcases hfolded name with hafter | hafter <;> rw [hafter] <;>
    rcases report.class? name with _ | store
  · exact .none
  · exact .some (.inl rfl)
  · exact .none
  · exact .some (.inr (maskAdded_foldMask store))

theorem FullyFolded.addedOnce {after : Report} (hfolded : FullyFolded report after) :
    AddedOnce report after := by
  intro name
  rw [hfolded name]
  rcases report.class? name with _ | store
  · exact .none
  · exact .some (maskAdded_foldMask store)

/-- In a series of attempts to save a report, each succeeds exactly when its sink has room for the
bytes of the report and can be flushed, whatever the attempts before it came to. The bytes are the
same for all of them. No count of a mask is lost or added twice, and from the first success on all
of them are in the records. -/
theorem saveSeries_spec (hreport : report.Reachable) (htexts : report.TextsFit) :
    ∃ bytes, report.SavedAs bytes ∧ ∀ sinks : List Sink,
      (∀ sink ∈ sinks, sink.written = .empty) →
      List.Forall₂ (fun sink save ↦ Attempt bytes sink save ∧ save.report.SavedAs bytes) sinks
        (report.saveSeries sinks) ∧
      (∀ save ∈ report.saveSeries sinks, AddedOnceAtMost report save.report ∧
        (save.outcome = .ok () → AddedOnce report save.report)) ∧
      (report.saveSeries sinks).Pairwise fun earlier later ↦
        earlier.outcome = .ok () → AddedOnce report later.report := by
  have hfiled := hreport.filed
  obtain ⟨bytes, hbytes⟩ := htexts.exists_encodeAll hfiled
  refine ⟨bytes, (savedAs_iff hfiled).mpr hbytes, fun sinks hfresh ↦ ?_⟩
  obtain ⟨hall, hpairs⟩ := pairwise_fullyFolded_saveSeries sinks report.partlyFolded_refl
  refine ⟨forall_attempt_saveSeries hfiled hbytes hfresh hfiled report.partlyFolded_refl,
    fun save hmem ↦ ⟨?_, fun hok ↦ (hall save hmem hok).addedOnce⟩,
    hpairs.imp fun hfolded hok ↦ (hfolded hok).addedOnce⟩
  exact (partlyFolded_of_mem_saveSeries hmem).addedOnceAtMost

/-- A sink that is too small, one that cannot be flushed, and one that takes everything. -/
theorem saveSeries_spec_of_mask :
    let store := ClassOp.applyAll [.ensureLine 3 "m()V" [.hit], .openMask 3, .hitMask 3]
      { name := "C" }
    let report := Report.insert {} store
    let sinks : List Sink := [{ capacity := some 9 }, { refusesFlush := true }, {}]
    report.Reachable ∧ report.TextsFit ∧ (∀ sink ∈ sinks, sink.written = .empty) ∧
      ∃ bytes, report.SavedAs bytes ∧
        List.Forall₂ (fun sink save ↦ Attempt bytes sink save ∧ save.report.SavedAs bytes) sinks
          (report.saveSeries sinks) ∧
        ∀ save ∈ report.saveSeries sinks, save.outcome = .ok () → AddedOnce report save.report := by
  intro store report sinks
  have hstore : store.Reachable := .applyAll (.fresh "C") (by simp)
  have hreport : report.Reachable := .insert .empty hstore
  have hrecords : store.records = [{ line := 3, signature := "m()V", hits := ⟨1⟩ }] := by
    decide +kernel
  have htexts : report.TextsFit := by
    refine textsFit_empty.insert hstore (by decide) ?_
    rw [hrecords, List.forall_mem_singleton]
    decide
  have hfresh : ∀ sink ∈ sinks, sink.written = .empty := by simp [sinks]
  obtain ⟨bytes, hbytes, hseries⟩ := saveSeries_spec hreport htexts
  obtain ⟨hattempts, hadded, -⟩ := hseries sinks hfresh
  exact ⟨hreport, htexts, hfresh, bytes, hbytes, hattempts, fun save hmem ↦ (hadded save hmem).2⟩

end Report

end JvmCoverage
