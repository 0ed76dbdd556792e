import JvmCoverage.Proofs.Report.Retry
import JvmCoverage.Proofs.Report.RoundTrip
import JvmCoverage.Proofs.Report.Transcript
/-!
# What is loaded is in a stable form

Whatever bytes a report is loaded from, its classes are `ClassStore.Canonical`, and it has as many
classes and lines as the bytes announce (`Report.load_stable`). The bytes need not be those that a
save would write: integers may be longer than they need to be, groups may be empty or come twice,
and names may come in any order. The report can be saved all the same, and from then on the bytes
do not change any more.
-/

set_option autoImplicit false
set_option relaxedAutoImplicit false

namespace JvmCoverage

namespace ClassStore

/-- The class is as reading leaves it: a sparse table without mask, lines that a class file can
have, ids that count from zero, and a counter for each arm. -/
structure Canonical (store : ClassStore) : Prop where
  isDense_eq : store.isDense = false
  mask_eq : store.mask = none
  maxLine_eq : store.maxLine = store.lineNumbers.foldl max 0
  line_eq : ∀ line record, store.line? line = some record →
    record.line = line ∧ line ≤ highestLineNumber
  jump_id : ∀ line record (slot : Nat) (jump : JumpRecord), store.line? line = some record →
    record.jumps[slot]? = some jump → jump.id.toNat = slot
  switch_id : ∀ line record (slot : Nat) (switch : SwitchRecord),
    store.line? line = some record → record.switches[slot]? = some switch →
      switch.id.toNat = slot
  arms_size : ∀ line record, store.line? line = some record → ∀ switch ∈ record.switches,
    switch.arms.size = switch.keys.arity

/-- The stores have one name, no mask and the same lines with the same counts. -/
structure SameLines (store back : ClassStore) : Prop where
  name_eq : back.name = store.name
  mask_eq : store.mask = none ∧ back.mask = none
  line?_eq : ∀ line, back.line? line = store.line? line

theorem SameLines.line?_foldMask_eq {store back : ClassStore} (hsame : SameLines store back)
    (line : UInt32) : store.foldMask.line? line = back.foldMask.line? line := by
  rw [foldMask_of_mask_eq_none hsame.mask_eq.1, foldMask_of_mask_eq_none hsame.mask_eq.2,
    hsame.line?_eq]

theorem GroupsRead.canonical {store : ClassStore} {name : String} {groups : List GroupTranscript}
    (hgroups : GroupsRead name groups store) : store.Canonical where
  isDense_eq := hgroups.filing.isDense_eq
  mask_eq := hgroups.filing.mask_eq
  maxLine_eq := hgroups.maxLine_eq
  line_eq line record hrecord := by
    obtain ⟨rfl, hread, -⟩ := hgroups.asRead_of_line? hrecord
    exact ⟨rfl, hread.line_le⟩
  jump_id line record slot jump hrecord hjump := by
    obtain ⟨-, hread, -⟩ := hgroups.asRead_of_line? hrecord
    have hslot := (Array.getElem?_eq_some_iff.mp hjump).1
    rw [hread.jump_id slot jump hjump,
      UInt32.toNat_ofNat_of_lt' (Nat.lt_trans hslot hread.jumps_lt)]
  switch_id line record slot switch hrecord hswitch := by
    obtain ⟨-, hread, -⟩ := hgroups.asRead_of_line? hrecord
    have hslot := (Array.getElem?_eq_some_iff.mp hswitch).1
    rw [(hread.switch slot switch hswitch).1,
      UInt32.toNat_ofNat_of_lt' (Nat.lt_trans hslot hread.switches_lt)]
  arms_size line record hrecord switch hswitch := by
    obtain ⟨-, hread, -⟩ := hgroups.asRead_of_line? hrecord
    exact hread.sized switch hswitch

/-- A class that has no mask and positions as ids comes back from a save as it was. -/
theorem ReadBack.line?_eq_of_positional {store back : ClassStore} (hback : ReadBack store back)
    (hmask : store.mask = none)
    (hpositional : ∀ line record, store.line? line = some record → record.Positional)
    (line : UInt32) : back.line? line = store.line? line := by
  cases hrecord : store.line? line with
  | none => rw [hback.line?_eq, hrecord, Option.map_none]
  | some record =>
    rw [hback.positional_eq line record hrecord (hpositional line record hrecord), maskCount, hmask]
    simp

end ClassStore

namespace Report

variable {report : Report} {transcript : ReportTranscript}

theorem ReadFrom.groupsRead (hread : ReadFrom transcript report) {name : String}
    {store : ClassStore} (hstore : report.class? name = some store) :
    ∃ groups, ClassStore.GroupsRead name groups store := by
  obtain ⟨rfl, entry, -, hentry⟩ := hread.classes.of_class name store hstore
  exact ⟨_, hentry.groups⟩

theorem ReadFrom.fits (hread : ReadFrom transcript report) : report.Fits where
  classCount_lt := hread.announced_eq ▸ hread.announced_lt
  record name store line record hstore hrecord := by
    obtain ⟨groups, hgroups⟩ := hread.groupsRead hstore
    exact (hgroups.asRead_of_line? hrecord).2.1.fits

theorem ReadFrom.textsFit (hread : ReadFrom transcript report) : report.TextsFit where
  name name store hstore := by
    obtain ⟨rfl, entry, -, hentry⟩ := hread.classes.of_class name store hstore
    have hname := hentry.get?_eq
    rw [Dictionary.get?, ← Array.getElem?_toList] at hname
    exact hread.names store.name (List.mem_of_getElem? hname)
  signature name store line record hstore hrecord := by
    obtain ⟨groups, hgroups⟩ := hread.groupsRead hstore
    exact (hgroups.asRead_of_line? hrecord).2.2

/-- A report that was read comes back from a save with the same classes and the same lines. -/
theorem ReadFrom.recovers_fields (hread : ReadFrom transcript report) (hfiled : report.Filed) :
    Decoder.Recovers decode report.fields fun again ↦ ∀ name,
      Option.Rel ClassStore.SameLines (report.class? name) (again.class? name) := by
  intro bytes rest hbytes
  obtain ⟨again, hagain, hback⟩ := Report.recovers_fields hfiled hread.fits rest hbytes
  refine ⟨again, hagain, fun name ↦ rel_imp (hback name) fun store back hstore _ hback ↦ ?_⟩
  obtain ⟨groups, hgroups⟩ := hread.groupsRead hstore
  have hmask := hgroups.filing.mask_eq
  refine ⟨hback.name_eq, ⟨hmask, hback.mask_eq⟩, ?_⟩
  exact hback.line?_eq_of_positional hmask fun line record hrecord ↦
    (hgroups.asRead_of_line? hrecord).2.1.positional

/-- The bytes that a report which was read is saved as are those that it is saved as ever after. -/
theorem ReadFrom.exists_stable (hread : ReadFrom transcript report) (hfiled : report.Filed) :
    ∃ saved again, report.SavedAs saved ∧ load saved = .ok (again, []) ∧
      (∀ name, Option.Rel ClassStore.SameLines (report.class? name) (again.class? name)) ∧
      again.SavedAs saved := by
  obtain ⟨saved, hsaved⟩ := hread.textsFit.exists_encodeAll hfiled
  obtain ⟨again, hagain, hback⟩ := hread.recovers_fields hfiled [] hsaved
  rw [List.append_nil] at hagain
  have hagainFiled := (Reachable.loaded hagain).filed
  have hfields := fields_congr hfiled hagainFiled fun name ↦
    rel_imp (hback name) fun store back _ _ hsame ↦ hsame.line?_foldMask_eq
  exact ⟨saved, again, (savedAs_iff hfiled).mpr hsaved, hagain, hback,
    (savedAs_iff hagainFiled).mpr (hfields ▸ hsaved)⟩

/-- Whatever bytes a report is loaded from, its classes are well formed and filed under their own
names, and nothing that the bytes announce was overwritten. Saving it succeeds, loading these bytes
gives the same classes and lines, and saving that gives the same bytes again. -/
theorem load_stable {bytes rest : List UInt8} (hload : load bytes = .ok (report, rest)) :
    (∀ name store, report.class? name = some store → store.name = name ∧ store.Canonical) ∧
    (∃ transcript, ReportTranscript.decode bytes = .ok (transcript, rest) ∧
      report.classCount = transcript.announced ∧
      (∀ name store, report.class? name = some store → ∃ entry ∈ transcript.classes.toList,
        (Dictionary.ofNames transcript.names.toList).get? entry.index = some name ∧
          store.lineCount = entry.announcedLines) ∧
      ∀ entry ∈ transcript.classes.toList, ∃ name store, report.class? name = some store ∧
        (Dictionary.ofNames transcript.names.toList).get? entry.index = some name ∧
          store.lineCount = entry.announcedLines) ∧
    ∃ saved again, report.SavedAs saved ∧ load saved = .ok (again, []) ∧
      (∀ name, Option.Rel ClassStore.SameLines (report.class? name) (again.class? name)) ∧
      again.SavedAs saved := by
  obtain ⟨transcript, htranscript, hread⟩ := shadowed_decode hload
  refine ⟨fun name store hstore ↦ ?_, ⟨transcript, htranscript, hread.announced_eq,
    fun name store hstore ↦ ?_, fun entry hentry ↦ ?_⟩,
    hread.exists_stable (Reachable.loaded hload).filed⟩
  · obtain ⟨groups, hgroups⟩ := hread.groupsRead hstore
    exact ⟨hgroups.filing.name_eq, hgroups.canonical⟩
  · obtain ⟨rfl, entry, hentry, hentryRead⟩ := hread.classes.of_class name store hstore
    exact ⟨entry, hentry, hentryRead.get?_eq, hentryRead.groups.lineCount_eq⟩
  · obtain ⟨store, hstore, hentryRead⟩ := hread.classes.of_entry entry hentry
    exact ⟨store.name, store, hstore, hentryRead.get?_eq, hentryRead.groups.lineCount_eq⟩

/-- Bytes that no save writes: an owner without lines, an owner that comes twice, a range of keys
that is inverted, and integers that are longer than they need to be. A byte follows them. -/
theorem load_stable_of_repeated_owner :
    let bytes : List UInt8 := [252, 0x52, 0x56, 0x43, 0x4C, 251, 1, 0, 1, 1, 67, 1, 0, 3,
      4, 110, 40, 41, 86, 0,
      4, 109, 40, 41, 86, 1, 7, 2, 1, 1, 0, 1, 1, 4, 2, 5,
      4, 109, 40, 41, 86, 1, 251, 3, 0, 252, 6, 0, 0, 0, 0, 0,
      9]
    ∃ report, load bytes = .ok (report, [9]) ∧ report.classCount = 1 ∧
      (∀ name store, report.class? name = some store → store.name = name ∧ store.Canonical) ∧
      ∃ saved again, report.SavedAs saved ∧ load saved = .ok (again, []) ∧
        (∀ name, Option.Rel ClassStore.SameLines (report.class? name) (again.class? name)) ∧
        again.SavedAs saved := by
  intro bytes
  have hfront : (load bytes).map (fun front ↦ (front.1.classCount, front.2)) = .ok (1, [9]) := by
    decide +kernel
  obtain ⟨front, hload⟩ : ∃ front, load bytes = .ok front := by
    cases hload : load bytes with
    | error error => rw [hload] at hfront; cases hfront
    | ok front => exact ⟨front, rfl⟩
  rw [hload] at hfront
  obtain ⟨report, rest⟩ := front
  injection hfront with hfront
  obtain ⟨hcount, hrest⟩ := Prod.mk.inj hfront
  obtain ⟨hclasses, -, hsaved⟩ := load_stable hload
  exact ⟨report, hrest ▸ hload, hcount, hclasses, hsaved⟩

end Report

end JvmCoverage
