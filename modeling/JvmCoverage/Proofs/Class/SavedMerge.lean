import JvmCoverage.Proofs.Class.Merge
import JvmCoverage.Proofs.Class.RoundTrip
import JvmCoverage.Proofs.Report.Dictionary
/-!
# Merging a store and merging what was saved of it

A store can be merged as it is, or be saved, loaded and merged then. A save folds the mask into the
store's own records, and a merge adds the mask to the records of the receiver. The two agree on
each line that the store has a record of (`LineRecord.absorb_addHits`). A count of the mask without
a record is lost in a save and added in a merge when the receiver has the line:
`ClassStore.strayCount` is that count. `ClassStore.mergeInPlace_saved` says that both merges
succeed together and that stray counts are all they differ in.
-/

set_option autoImplicit false
set_option relaxedAutoImplicit false

namespace JvmCoverage

namespace LineRecord

theorem eq_zero_of_addHits_eq {record : LineRecord} {count : UInt32}
    (heq : record = record.addHits count) : count = 0 := by
  have hhits : record.hits.value = record.hits.value + count :=
    congrArg (fun changed : LineRecord ↦ changed.hits.value) heq
  simpa using hhits.symm

/-- Counts can be added before or after a merge. -/
theorem absorb_addHits (ours theirs : LineRecord) (count : UInt32) :
    ours.absorb (theirs.addHits count) = (ours.absorb theirs).addHits count := by
  simp [absorb, addHits, Counter.add, UInt32.add_assoc]

end LineRecord

namespace ClassStore

variable {ours theirs back : ClassStore}

/-- What the mask counted on a line without record. -/
def strayCount (store : ClassStore) (line : UInt32) : UInt32 :=
  if store.containsLine line then 0 else store.maskCount line

theorem strayCount_of_some {store : ClassStore} {line : UInt32} {record : LineRecord}
    (hrecord : store.line? line = some record) : store.strayCount line = 0 := by
  rw [strayCount, containsLine_eq, hrecord]
  rfl

theorem strayCount_of_none {store : ClassStore} {line : UInt32} (hnone : store.line? line = none) :
    store.strayCount line = store.maskCount line := by
  rw [strayCount, containsLine_eq, hnone]
  rfl

/-! ### Reading one class back -/

theorem save_eq (store : ClassStore) (dictionary : Dictionary) (sink : Sink) :
    store.save dictionary sink =
      let (dictionary, index) := dictionary.intern store.name
      let (sink, outcome) := sink.writeAll (store.foldMask.fields index)
      { store := store.foldMask, dictionary, sink, outcome } := by
  rw [save, name_foldMask]

/-- What was saved of a class is loaded as a store that has what the class had. -/
theorem decode_save {store : ClassStore} (hstore : store.WellFormed)
    (hfits : ∀ line record, store.line? line = some record → record.Fits)
    {dictionary : Dictionary} (hdictionary : dictionary.size < UInt32.size)
    (hok : (store.save dictionary {}).outcome = .ok ()) :
    ∃ back, decode (store.save dictionary {}).dictionary
        (store.save dictionary {}).sink.written.toList = .ok (back, []) ∧ ReadBack store back := by
  have hindex := Dictionary.get?_intern hdictionary store.name
  rw [save_eq] at hok ⊢
  dsimp only at hok ⊢
  obtain ⟨bytes, hbytes, hwritten⟩ := Sink.written_of_writeAll {} rfl hok
  obtain ⟨back, hback, hread⟩ := recovers_foldMask hstore hfits hindex [] hbytes
  rw [List.append_nil] at hback
  have hfresh : ({} : Sink).written ++ bytes.toByteArray = bytes.toByteArray :=
    ByteArray.empty_append
  refine ⟨back, ?_, hread⟩
  rw [hwritten, hfresh, toList_toByteArray]
  exact hback

/-! ### Both ways to merge -/

theorem line?_mergeInPlace_of_ok (hours : ours.WellFormed) (htheirs : theirs.WellFormed)
    (hok : (ours.mergeInPlace theirs).2 = .ok ()) (line : UInt32) :
    (ours.mergeInPlace theirs).1.line? line =
      ((ours.line? line).merge LineRecord.absorb (theirs.line? line)).map
        (·.addHits (theirs.maskCount line)) := by
  have hsame := (mergeInPlace_eq_ok_iff hours htheirs).mp hok
  obtain ⟨houtcome, hadded⟩ := added_of_sameShapes hours htheirs hsame.2
  rw [mergeInPlace_of_ok ((conflict?_eq_none_iff htheirs).mpr hsame) houtcome]
  exact hadded.line?_mergeMask htheirs line

namespace ReadBack

/-- The record of a line in a store whose ids are positions, after a save. -/
theorem line?_eq_addHits (hback : ReadBack theirs back)
    (hpositional : ∀ line record, theirs.line? line = some record → record.Positional)
    (line : UInt32) :
    back.line? line = (theirs.line? line).map (·.addHits (theirs.maskCount line)) := by
  cases htheir : theirs.line? line with
  | none => rw [hback.line?_eq, htheir, Option.map_none, Option.map_none]
  | some their => exact hback.positional_eq line their htheir (hpositional line their htheir)

theorem mergeInPlace_ok (hback : ReadBack theirs back)
    (hpositional : ∀ line record, theirs.line? line = some record → record.Positional)
    (hours : ours.WellFormed) (htheirs : theirs.WellFormed) (hread : back.WellFormed)
    (hok : (ours.mergeInPlace theirs).2 = .ok ()) : (ours.mergeInPlace back).2 = .ok () := by
  obtain ⟨hname, hshapes⟩ := (mergeInPlace_eq_ok_iff hours htheirs).mp hok
  refine (mergeInPlace_eq_ok_iff hours hread).mpr ⟨hname.trans hback.name_eq.symm, ?_⟩
  intro line our their hour htheir
  rw [hback.line?_eq_addHits hpositional] at htheir
  obtain ⟨old, hold, rfl⟩ := Option.map_eq_some_iff.mp htheir
  exact hshapes line our old hour hold

/-- A merge adds what the merge of the saved store adds, and the stray counts on top of it. -/
theorem line?_mergeInPlace (hback : ReadBack theirs back)
    (hpositional : ∀ line record, theirs.line? line = some record → record.Positional)
    (hours : ours.WellFormed) (htheirs : theirs.WellFormed) (hread : back.WellFormed)
    (hok : (ours.mergeInPlace theirs).2 = .ok ()) (line : UInt32) :
    (ours.mergeInPlace theirs).1.line? line =
      ((ours.mergeInPlace back).1.line? line).map (·.addHits (theirs.strayCount line)) := by
  have hokBack := hback.mergeInPlace_ok hpositional hours htheirs hread hok
  have hmaskBack : back.maskCount line = 0 := by rw [maskCount, hback.mask_eq, Option.elim_none]
  rw [line?_mergeInPlace_of_ok hours htheirs hok, line?_mergeInPlace_of_ok hours hread hokBack,
    hback.line?_eq_addHits hpositional, hmaskBack]
  cases htheir : theirs.line? line with
  | none =>
    rw [strayCount_of_none htheir]
    cases ours.line? line <;> simp
  | some their =>
    rw [strayCount_of_some htheir]
    cases ours.line? line <;> simp [LineRecord.absorb_addHits]

end ReadBack

/-- What all records have, the record of each line has. -/
theorem property_of_line? {store : ClassStore} (hstore : store.WellFormed)
    (property : LineRecord → Prop) (hrecords : ∀ record ∈ store.records, property record)
    (line : UInt32) (record : LineRecord) (hrecord : store.line? line = some record) :
    property record := by
  have hline := hstore.filed.line_eq hrecord
  exact hrecords record ((LineTable.mem_records_iff hstore.filed record).mpr (hline ▸ hrecord))

/-- A line of a merge was in one of the two stores, so it has no stray count unless the receiver had
it. -/
theorem strayCount_eq_zero_of_merged (hours : ours.WellFormed) (htheirs : theirs.WellFormed)
    (hok : (ours.mergeInPlace theirs).2 = .ok ())
    (hclean : ∀ line, ours.containsLine line = true → theirs.strayCount line = 0) {line : UInt32}
    {record : LineRecord} (hrecord : (ours.mergeInPlace theirs).1.line? line = some record) :
    theirs.strayCount line = 0 := by
  have hcontains := (sumOf_mergeInPlace hours htheirs hok).containsLine_eq line
  rw [containsLine_eq, hrecord, Option.isSome_some] at hcontains
  rcases (Bool.or_eq_true _ _).mp hcontains.symm with hour | htheir
  · exact hclean line hour
  · rw [strayCount, if_pos htheir]

/-- When a store can be merged, what was saved of it can be merged as well. On each line the first
merge leaves the record that the second one leaves, with the stray count of the line added to it. So
the two agree exactly when no line of the receiver has a stray count. -/
theorem mergeInPlace_saved (hours : ours.Reachable) (htheirs : theirs.Reachable)
    (hfits : ∀ line record, theirs.line? line = some record → record.Fits ∧ record.Positional)
    {dictionary : Dictionary} (hdictionary : dictionary.size < UInt32.size)
    (hsave : (theirs.save dictionary {}).outcome = .ok ())
    (hok : (ours.mergeInPlace theirs).2 = .ok ()) :
    ∃ back, decode (theirs.save dictionary {}).dictionary
        (theirs.save dictionary {}).sink.written.toList = .ok (back, []) ∧
      (ours.mergeInPlace back).2 = .ok () ∧
      (∀ line, (ours.mergeInPlace theirs).1.line? line =
        ((ours.mergeInPlace back).1.line? line).map (·.addHits (theirs.strayCount line))) ∧
      ((∀ line, (ours.mergeInPlace theirs).1.line? line = (ours.mergeInPlace back).1.line? line) ↔
        ∀ line, ours.containsLine line = true → theirs.strayCount line = 0) := by
  have hpositional (line : UInt32) (record : LineRecord)
      (hrecord : theirs.line? line = some record) : record.Positional :=
    (hfits line record hrecord).2
  obtain ⟨back, hdecode, hback⟩ := decode_save htheirs.wellFormed
    (fun line record hrecord ↦ (hfits line record hrecord).1) hdictionary hsave
  have hread : back.WellFormed := wellFormed_decode _ hdecode
  have hline := hback.line?_mergeInPlace hpositional hours.wellFormed htheirs.wellFormed hread hok
  refine ⟨back, hdecode, hback.mergeInPlace_ok hpositional hours.wellFormed htheirs.wellFormed hread
    hok, hline, fun hsame line hour ↦ ?_, fun hclean line ↦ ?_⟩
  · have hsum := sumOf_mergeInPlace hours.wellFormed htheirs.wellFormed hok
    have hcontains := hsum.containsLine_eq line
    rw [hour, Bool.true_or, containsLine_eq, Option.isSome_iff_exists] at hcontains
    obtain ⟨record, hrecord⟩ := hcontains
    have hstray := hline line
    rw [← hsame line, hrecord, Option.map_some, Option.some_inj] at hstray
    exact LineRecord.eq_zero_of_addHits_eq hstray
  · cases hrecord : (ours.mergeInPlace theirs).1.line? line with
    | none =>
      rw [hline line, Option.map_eq_none_iff] at hrecord
      exact hrecord.symm
    | some record =>
      have hzero :=
        strayCount_eq_zero_of_merged hours.wellFormed htheirs.wellFormed hok hclean hrecord
      rw [← hrecord, hline line, hzero]
      cases (ours.mergeInPlace back).1.line? line <;> simp

/-- The mask counted on the shared line 3 and on line 4, which neither store has. -/
theorem mergeInPlace_saved_of_mask :
    let ours := ClassOp.applyAll [.ensureLine 3 "m()V" [.addJump 0, .hitJump 0 true]]
      { name := "C" }
    let theirs := ClassOp.applyAll [.ensureLine 3 "m()V" [.addJump 0, .hitJump 0 false],
      .openMask 4, .hitMask 3, .hitMask 4] { name := "C" }
    ours.Reachable ∧ theirs.Reachable ∧
      (∀ line record, theirs.line? line = some record → record.Fits ∧ record.Positional) ∧
      (theirs.save {} {}).outcome = .ok () ∧ (ours.mergeInPlace theirs).2 = .ok () ∧
      ∃ back, decode (theirs.save {} {}).dictionary (theirs.save {} {}).sink.written.toList =
          .ok (back, []) ∧
        (ours.mergeInPlace back).2 = .ok () ∧
        ∀ line, (ours.mergeInPlace theirs).1.line? line =
          (ours.mergeInPlace back).1.line? line := by
  intro ours theirs
  have hours : ours.Reachable := .applyAll (.fresh "C") (by simp)
  have htheirs : theirs.Reachable := .applyAll (.fresh "C") (by simp)
  have hrecords : theirs.records =
      [{ line := 3, signature := "m()V", jumps := #[{ id := 0, fallen := ⟨1⟩ }] }] := by
    decide +kernel
  have hfits := property_of_line? htheirs.wellFormed
    (fun record ↦ record.Fits ∧ record.Positional) fun record hrecord ↦ by
      rw [hrecords, List.mem_singleton] at hrecord
      subst hrecord
      exact ⟨⟨by decide, by decide, by decide, by decide⟩, by decide⟩
  have hsave : (theirs.save {} {}).outcome = .ok () := by decide +kernel
  have hok : (ours.mergeInPlace theirs).2 = .ok () := by decide +kernel
  obtain ⟨back, hdecode, hback, -, hsame⟩ :=
    mergeInPlace_saved hours htheirs hfits (by decide) hsave hok
  refine ⟨hours, htheirs, hfits, hsave, hok, back, hdecode, hback, hsame.mpr fun line hline ↦ ?_⟩
  obtain ⟨our, hour⟩ := Option.isSome_iff_exists.mp hline
  have hnumbers : ours.records =
      [{ line := 3, signature := "m()V", jumps := #[{ id := 0, taken := ⟨1⟩ }] }] := by
    decide +kernel
  have hthree : our.line = 3 := property_of_line? hours.wellFormed
    (fun record ↦ record.line = 3) (by simp [hnumbers]) line our hour
  obtain rfl : our.line = line := hours.wellFormed.filed.line_eq hour
  rw [hthree]
  decide +kernel

/-- Line 5 was counted three times in the mask of a store that has no record of it, and the receiver
has one: the merge counts three executions, the merge of what was saved counts none. -/
theorem mergeInPlace_saved_ne_of_stray :
    let ours := ClassOp.applyAll [.ensureLine 5 "m()V" []] { name := "C" }
    let theirs := ClassOp.applyAll [.ensureLine 4 "m()V" [], .openMask 5, .hitMask 5, .hitMask 5,
      .hitMask 5] { name := "C" }
    ours.Reachable ∧ theirs.Reachable ∧
      (∀ line record, theirs.line? line = some record → record.Fits ∧ record.Positional) ∧
      (theirs.save {} {}).outcome = .ok () ∧ (ours.mergeInPlace theirs).2 = .ok () ∧
      ∃ back, decode (theirs.save {} {}).dictionary (theirs.save {} {}).sink.written.toList =
          .ok (back, []) ∧
        (ours.mergeInPlace back).2 = .ok () ∧
        ((ours.mergeInPlace theirs).1.line? 5).map (·.hits.value) = some 3 ∧
        ((ours.mergeInPlace back).1.line? 5).map (·.hits.value) = some 0 := by
  intro ours theirs
  have hours : ours.Reachable := .applyAll (.fresh "C") (by simp)
  have htheirs : theirs.Reachable := .applyAll (.fresh "C") (by simp)
  have hrecords : theirs.records = [{ line := 4, signature := "m()V" }] := by decide +kernel
  have hfits := property_of_line? htheirs.wellFormed
    (fun record ↦ record.Fits ∧ record.Positional) fun record hrecord ↦ by
      rw [hrecords, List.mem_singleton] at hrecord
      subst hrecord
      exact ⟨⟨by decide, by decide, by decide, by decide⟩, by decide⟩
  have hsave : (theirs.save {} {}).outcome = .ok () := by decide +kernel
  have hok : (ours.mergeInPlace theirs).2 = .ok () := by decide +kernel
  obtain ⟨back, hdecode, hback⟩ := decode_save htheirs.wellFormed
    (fun line record hrecord ↦ (hfits line record hrecord).1) (by decide) hsave
  have hread : back.WellFormed := wellFormed_decode _ hdecode
  have hokBack := hback.mergeInPlace_ok (fun line record hrecord ↦ (hfits line record hrecord).2)
    hours.wellFormed htheirs.wellFormed hread hok
  refine ⟨hours, htheirs, hfits, hsave, hok, back, hdecode, hokBack, by decide +kernel, ?_⟩
  have hfive : theirs.line? 5 = none := by decide +kernel
  have hour : ours.line? 5 = some { line := 5, signature := "m()V" } := by decide +kernel
  rw [line?_mergeInPlace_of_ok hours.wellFormed hread hokBack, hback.line?_eq, hfive, hour,
    maskCount, hback.mask_eq]
  rfl

end ClassStore

end JvmCoverage
