import JvmCoverage.Proofs.Class.Merge
import JvmCoverage.Proofs.Report.Saving
/-!
# What a merge of reports adds

A merge of reports succeeds exactly when they agree in the shapes of the lines that they share
(`Report.merge_eq_ok_iff`), and it merges the classes that both have and takes over the others
(`Report.class?_merge`). Masks are not treated alike: the receiver keeps its own, that of the other
report is added to the records at once, and a class that is taken over keeps its mask. What a save
writes are the records with the masks folded, and for these `Report.sumOf_merge` says that a merge
adds up line by line, as long as masks count nothing on lines without record.
-/

set_option autoImplicit false
set_option relaxedAutoImplicit false

namespace JvmCoverage

theorem eq_of_isSome_eq {α : Type} {first second : Option α}
    (hsome : first.isSome = second.isSome)
    (heq : ∀ ours theirs, first = some ours → second = some theirs → ours = theirs) :
    first = second := by
  rcases first with _ | ours <;> rcases second with _ | theirs
  · rfl
  · cases hsome
  · cases hsome
  · exact congrArg some (heq ours theirs rfl rfl)

/-! ### Masks that lie on lines with records -/

namespace ClassStore

variable {ours theirs merged : ClassStore}

/-- The mask counts nothing on a line that has no record. -/
def MaskCovered (store : ClassStore) : Prop :=
  ∀ line, store.containsLine line = false → store.maskCount line = 0

theorem isSome_line?_foldMask (store : ClassStore) (line : UInt32) :
    (store.foldMask.line? line).isSome = store.containsLine line := by
  rw [line?_foldMask, Option.isSome_map, containsLine_eq]

theorem maskCovered_of_mask_eq_none {store : ClassStore} (hmask : store.mask = none) :
    store.MaskCovered := by
  intro line _
  rw [maskCount, hmask, Option.elim_none]

theorem maskCovered_openMask (store : ClassStore) (maxLine : UInt32) :
    (store.openMask maxLine).MaskCovered := by
  intro line _
  simp only [openMask, maskCount, Option.elim_some, CounterBank.get, CounterBank.zeros,
    Array.getElem?_replicate]
  split_ifs <;> rfl

/-- A mask that is hit on lines with record only stays covered. -/
theorem MaskCovered.hitMask {store : ClassStore} (hcovered : store.MaskCovered) {line : UInt32}
    (hline : store.containsLine line = true) : (store.hitMask line).MaskCovered := by
  intro other hother
  have hne : line.toNat ≠ other.toNat := fun heq ↦ by
    rw [← UInt32.toNat_inj.mp heq] at hother
    exact Bool.false_ne_true (hother.symm.trans hline)
  have hcount := hcovered other hother
  rw [maskCount] at hcount ⊢
  simp only [ClassStore.hitMask]
  cases hmask : store.mask with
  | none => rfl
  | some mask =>
    rw [hmask] at hcount
    simpa [CounterBank.get, CounterBank.hit, Array.getElem?_modify, hne] using hcount

/-- What is counted on a line after a merge, the masks of both stores included. -/
theorem SumOf.counts_foldMask (hsum : SumOf ours theirs merged) {line : UInt32}
    {record : LineRecord} (hrecord : merged.foldMask.line? line = some record) :
    (∀ our, ours.line? line = some our → record.shape = our.shape) ∧
      (∀ their, theirs.line? line = some their → record.shape = their.shape) ∧
      record.hits.value =
        ours.countOf line (·.hits.value) + theirs.countOf line (·.hits.value) +
          (theirs.maskCount line + ours.maskCount line) ∧
      ∀ counter, record.branchCount counter =
        ours.countOf line (·.branchCount counter) +
          theirs.countOf line (·.branchCount counter) := by
  rw [line?_foldMask] at hrecord
  obtain ⟨plain, hplain, rfl⟩ := Option.map_eq_some_iff.mp hrecord
  have hmask : merged.maskCount line = ours.maskCount line := by
    rw [maskCount, maskCount, hsum.mask_eq]
  refine ⟨fun our hour ↦ hsum.shape_left line plain our hplain hour,
    fun their htheir ↦ hsum.shape_right line plain their hplain htheir, ?_, fun counter ↦ ?_⟩
  · show plain.hits.value + merged.maskCount line = _
    rw [hsum.hits_eq line plain hplain, hmask, UInt32.add_assoc]
  · rw [LineRecord.branchCount_addHits]
    exact hsum.branchCount_eq line plain counter hplain

theorem shape_of_line?_foldMask {store : ClassStore} {line : UInt32} {record : LineRecord}
    (hrecord : store.foldMask.line? line = some record) :
    ∃ plain, store.line? line = some plain ∧ record.shape = plain.shape := by
  rw [line?_foldMask] at hrecord
  obtain ⟨plain, hplain, rfl⟩ := Option.map_eq_some_iff.mp hrecord
  exact ⟨plain, hplain, rfl⟩

theorem hits_foldMask {store : ClassStore} (hcovered : store.MaskCovered) (line : UInt32) :
    (store.foldMask.line? line).elim 0 (·.hits.value) =
      store.countOf line (·.hits.value) + store.maskCount line := by
  rw [line?_foldMask, countOf]
  cases hline : store.line? line with
  | none => simp [hcovered line (by rw [containsLine_eq, hline, Option.isSome_none])]
  | some record => rfl

theorem branchCount_foldMask (store : ClassStore) (line : UInt32) (counter : BranchCounter) :
    (store.foldMask.line? line).elim 0 (·.branchCount counter) =
      store.countOf line (·.branchCount counter) := by
  rw [line?_foldMask, countOf]
  cases store.line? line with
  | none => rfl
  | some record => exact record.branchCount_addHits _ counter

/-- When both masks are covered, merging and folding add up whatever comes first. -/
theorem SumOf.sumOf_foldMask (hsum : SumOf ours theirs merged) (hours : ours.MaskCovered)
    (htheirs : theirs.MaskCovered) {line : UInt32} {record : LineRecord}
    (hrecord : merged.foldMask.line? line = some record) :
    LineRecord.SumOf (ours.foldMask.line? line) (theirs.foldMask.line? line) record := by
  obtain ⟨hleft, hright, hhits, hbranches⟩ := hsum.counts_foldMask hrecord
  exact {
    shape_left := fun our hour ↦ by
      obtain ⟨plain, hplain, hshape⟩ := shape_of_line?_foldMask hour
      exact (hleft plain hplain).trans hshape.symm
    shape_right := fun their htheir ↦ by
      obtain ⟨plain, hplain, hshape⟩ := shape_of_line?_foldMask htheir
      exact (hright plain hplain).trans hshape.symm
    hits_eq := by
      rw [hhits, hits_foldMask hours, hits_foldMask htheirs]
      ac_rfl
    branchCount_eq := fun counter ↦ by
      rw [hbranches, branchCount_foldMask, branchCount_foldMask] }

/-- Two stores can be merged either way, whatever their masks count: each record meets both masks
in the end. -/
theorem SumOf.line?_foldMask_comm {reversed : ClassStore} (hsum : SumOf ours theirs merged)
    (hreversed : SumOf theirs ours reversed) (hmerged : merged.WellFormed)
    (hreversedWell : reversed.WellFormed) (line : UInt32) :
    merged.foldMask.line? line = reversed.foldMask.line? line := by
  have hsome : (merged.foldMask.line? line).isSome = (reversed.foldMask.line? line).isSome := by
    rw [isSome_line?_foldMask, isSome_line?_foldMask, hsum.containsLine_eq,
      hreversed.containsLine_eq, Bool.or_comm]
  refine eq_of_isSome_eq hsome fun record other hrecord hother ↦ ?_
  obtain ⟨hleft, hright, hhits, hbranches⟩ := hsum.counts_foldMask hrecord
  obtain ⟨hotherLeft, hotherRight, hotherHits, hotherBranches⟩ :=
    hreversed.counts_foldMask hother
  have hline := hmerged.foldMask.filed.line_eq hrecord
  have hotherLine := hreversedWell.foldMask.filed.line_eq hother
  have hcontains : ours.containsLine line = true ∨ theirs.containsLine line = true := by
    rw [← Bool.or_eq_true, ← hsum.containsLine_eq, ← isSome_line?_foldMask, hrecord]
    rfl
  refine LineRecord.eq_of_counts (hline.trans hotherLine.symm) ?_
    (hmerged.foldMask.sized hrecord) (hreversedWell.foldMask.sized hother) ?_ fun counter ↦ ?_
  · rcases hcontains with hour | htheir
    · obtain ⟨our, hour⟩ := Option.isSome_iff_exists.mp hour
      exact (hleft our hour).trans (hotherRight our hour).symm
    · obtain ⟨their, htheir⟩ := Option.isSome_iff_exists.mp htheir
      exact (hright their htheir).trans (hotherLeft their htheir).symm
  · rw [hhits, hotherHits]
    ac_rfl
  · rw [hbranches, hotherBranches, UInt32.add_comm]

theorem SumOf.maskCovered (hsum : SumOf ours theirs merged) (hours : ours.MaskCovered) :
    merged.MaskCovered := by
  intro line hline
  rw [hsum.containsLine_eq, Bool.or_eq_false_iff] at hline
  rw [maskCount, hsum.mask_eq]
  exact hours line hline.1

end ClassStore

/-! ### Merging one report into another -/

namespace Report

variable {report other : Report}

/-- The record of a line of a class, with what the mask of the class counts on it. -/
def record? (report : Report) (name : String) (line : UInt32) : Option LineRecord :=
  (report.class? name).bind (·.foldMask.line? line)

/-- The reports agree in the shape of every line that both have. -/
def Compatible (report other : Report) : Prop :=
  ∀ name ours theirs, report.class? name = some ours → other.class? name = some theirs →
    ClassStore.SameShapes ours theirs

/-- Every mask of the report counts nothing on lines that have no record. -/
def MasksCovered (report : Report) : Prop :=
  ∀ name store, report.class? name = some store → store.MaskCovered

theorem compatible_iff :
    report.Compatible other ↔ ∀ name line our their, report.record? name line = some our →
      other.record? name line = some their → our.shape = their.shape := by
  constructor
  · intro hcompatible name line our their hour htheir
    obtain ⟨ours, hours, hour⟩ := Option.bind_eq_some_iff.mp hour
    obtain ⟨theirs, htheirs, htheir⟩ := Option.bind_eq_some_iff.mp htheir
    obtain ⟨plain, hplain, hshape⟩ := ClassStore.shape_of_line?_foldMask hour
    obtain ⟨theirPlain, htheirPlain, htheirShape⟩ := ClassStore.shape_of_line?_foldMask htheir
    rw [hshape, htheirShape]
    exact hcompatible name ours theirs hours htheirs line plain theirPlain hplain htheirPlain
  · intro hshapes name ours theirs hours htheirs line our their hour htheir
    refine hshapes name line (our.addHits (ours.maskCount line))
      (their.addHits (theirs.maskCount line)) ?_ ?_
    · rw [record?, hours, Option.bind_some, ClassStore.line?_foldMask, hour, Option.map_some]
    · rw [record?, htheirs, Option.bind_some, ClassStore.line?_foldMask, htheir, Option.map_some]

/-- A class that both reports have is merged, one that is new is taken over. -/
theorem mergeClass_eq (hreport : report.Filed) {theirs : ClassStore} (htheirs : theirs.Reachable) :
    ((report.mergeClass theirs).2 = .ok () ↔
        ∀ ours, report.class? theirs.name = some ours → ours.SameShapes theirs) ∧
      ∀ name, (report.mergeClass theirs).1.class? name =
        if theirs.name = name then
          (report.class? name).merge (fun ours theirs ↦ (ours.mergeInPlace theirs).1) (some theirs)
        else report.class? name := by
  unfold mergeClass
  cases hours : report.class? theirs.name with
  | none =>
    refine ⟨by simp, fun name ↦ ?_⟩
    rw [class?_insert]
    split_ifs with hname
    · rw [← hname, hours, Option.merge_none_left]
    · rfl
  | some ours =>
    obtain ⟨hname, hstore⟩ := hreport theirs.name ours hours
    refine ⟨?_, fun name ↦ ?_⟩
    · refine (ClassStore.mergeInPlace_eq_ok_iff hstore.wellFormed htheirs.wellFormed).trans ?_
      simp [hname]
    · simp only [class?, Std.ExtTreeMap.getElem?_insert, Std.compare_eq_iff_eq]
      split_ifs with hsame
      · rw [← hsame, show report.classes[theirs.name]? = some ours from hours]
        rfl
      · rfl

theorem masksCovered_empty : MasksCovered {} := by
  intro name store hstore
  simp [class?] at hstore

theorem MasksCovered.insert (hreport : report.MasksCovered) {store : ClassStore}
    (hstore : store.MaskCovered) : (report.insert store).MasksCovered := by
  intro name found hfound
  rw [class?_insert] at hfound
  split_ifs at hfound with hname
  · exact Option.some.inj hfound ▸ hstore
  · exact hreport name found hfound

theorem mergeStores_eq (hreport : report.Filed) {stores : List ClassStore}
    (hstores : ∀ store ∈ stores, store.Reachable)
    (hdistinct : stores.Pairwise fun first second ↦ first.name ≠ second.name) :
    ((report.mergeStores stores).2 = .ok () ↔ ∀ theirs ∈ stores, ∀ ours,
        report.class? theirs.name = some ours → ours.SameShapes theirs) ∧
      ((report.mergeStores stores).2 = .ok () → ∀ name,
        (report.mergeStores stores).1.class? name =
          (report.class? name).merge (fun ours theirs ↦ (ours.mergeInPlace theirs).1)
            (stores.find? (·.name = name))) := by
  induction stores generalizing report with
  | nil => simp [mergeStores]
  | cons store rest ih =>
    obtain ⟨hne, hrest⟩ := List.pairwise_cons.mp hdistinct
    have hstore := hstores store List.mem_cons_self
    obtain ⟨hfirst, hfound⟩ := mergeClass_eq hreport hstore
    obtain ⟨hiff, hclass⟩ := ih (hreport.mergeClass hstore)
      (fun other hother ↦ hstores other (List.mem_cons_of_mem _ hother)) hrest
    cases houtcome : (report.mergeClass store).2 with
    | error error =>
      rw [mergeStores_cons_of_error houtcome]
      rw [houtcome] at hfirst
      simp only [reduceCtorEq, false_iff] at hfirst ⊢
      exact ⟨fun hall ↦ hfirst (hall store List.mem_cons_self), False.elim⟩
    | ok =>
      rw [mergeStores_cons_of_ok houtcome]
      refine ⟨?_, fun hok name ↦ ?_⟩
      · rw [hiff, List.forall_mem_cons]
        have hothers (theirs : ClassStore) (hmem : theirs ∈ rest) :
            (report.mergeClass store).1.class? theirs.name = report.class? theirs.name := by
          rw [hfound, if_neg (hne theirs hmem)]
        constructor
        · exact fun hshapes ↦ ⟨hfirst.mp houtcome, fun theirs hmem ours hours ↦
            hshapes theirs hmem ours (hothers theirs hmem ▸ hours)⟩
        · exact fun hshapes theirs hmem ours hours ↦
            hshapes.2 theirs hmem ours (hothers theirs hmem ▸ hours)
      · rw [hclass hok, hfound]
        by_cases hname : store.name = name
        · have hnone : rest.find? (·.name = name) = none :=
            List.find?_eq_none.mpr fun other hother ↦ by
              simpa [← hname] using Ne.symm (hne other hother)
          simp [hname, hnone]
        · simp [hname]

/-- A merge succeeds exactly when the reports are compatible. -/
theorem merge_eq_ok_iff (hreport : report.Filed) (hother : other.Filed) :
    (report.merge other).2 = .ok () ↔ report.Compatible other := by
  refine (mergeStores_eq hreport (fun _ ↦ hother.mem_stores) (pairwise_stores hother)).1.trans ?_
  constructor
  · intro hshapes name ours theirs hours htheirs
    obtain rfl := (hother name theirs htheirs).1
    exact hshapes theirs ((mem_stores_iff hother).mpr htheirs) ours hours
  · exact fun hcompatible theirs hmem ours hours ↦
      hcompatible theirs.name ours theirs hours ((mem_stores_iff hother).mp hmem)

theorem class?_merge (hreport : report.Filed) (hother : other.Filed)
    (hok : (report.merge other).2 = .ok ()) (name : String) :
    (report.merge other).1.class? name =
      (report.class? name).merge (fun ours theirs ↦ (ours.mergeInPlace theirs).1)
        (other.class? name) := by
  rw [← find?_stores hother]
  exact (mergeStores_eq hreport (fun _ ↦ hother.mem_stores) (pairwise_stores hother)).2 hok name

theorem Filed.merge (hreport : report.Filed) (hother : other.Filed) :
    (report.merge other).1.Filed :=
  hreport.mergeStores fun _ ↦ hother.mem_stores

/-- The report has the classes and lines of both reports, and counts on each line what both
counted. -/
structure SumOf (first second merged : Report) : Prop where
  isSome_class? : ∀ name, (merged.class? name).isSome =
    ((first.class? name).isSome || (second.class? name).isSome)
  isSome_record? : ∀ name line, (merged.record? name line).isSome =
    ((first.record? name line).isSome || (second.record? name line).isSome)
  record : ∀ name line record, merged.record? name line = some record →
    LineRecord.SumOf (first.record? name line) (second.record? name line) record

/-- A merge of two classes of reports. -/
theorem sumOf_mergeInPlace (hreport : report.Filed) (hother : other.Filed)
    (hcompatible : report.Compatible other) {name : String} {ours theirs : ClassStore}
    (hours : report.class? name = some ours) (htheirs : other.class? name = some theirs) :
    ClassStore.SumOf ours theirs (ours.mergeInPlace theirs).1 := by
  obtain ⟨hourName, hourStore⟩ := hreport name ours hours
  obtain ⟨htheirName, htheirStore⟩ := hother name theirs htheirs
  refine ClassStore.sumOf_mergeInPlace hourStore.wellFormed htheirStore.wellFormed ?_
  exact (ClassStore.mergeInPlace_eq_ok_iff hourStore.wellFormed htheirStore.wellFormed).mpr
    ⟨hourName.trans htheirName.symm, hcompatible name ours theirs hours htheirs⟩

/-- A class of two merged reports is taken over from one of them or merged from both. -/
theorem class?_merge_cases (hreport : report.Filed) (hother : other.Filed)
    (hok : (report.merge other).2 = .ok ()) {name : String} {store : ClassStore}
    (hstore : (report.merge other).1.class? name = some store) :
    report.class? name = none ∧ other.class? name = some store ∨
      report.class? name = some store ∧ other.class? name = none ∨
      ∃ ours theirs, report.class? name = some ours ∧ other.class? name = some theirs ∧
        ClassStore.SumOf ours theirs store := by
  rw [class?_merge hreport hother hok] at hstore
  cases hours : report.class? name with
  | none =>
    rw [hours, Option.merge_none_left] at hstore
    exact .inl ⟨rfl, hstore⟩
  | some ours =>
    cases htheirs : other.class? name with
    | none =>
      rw [hours, htheirs, Option.merge_none_right] at hstore
      exact .inr (.inl ⟨hstore, rfl⟩)
    | some theirs =>
      rw [hours, htheirs, Option.merge_some_some] at hstore
      refine .inr (.inr ⟨ours, theirs, rfl, rfl, ?_⟩)
      exact Option.some.inj hstore ▸ sumOf_mergeInPlace hreport hother
        ((merge_eq_ok_iff hreport hother).mp hok) hours htheirs

theorem isSome_class?_merge (hreport : report.Filed) (hother : other.Filed)
    (hok : (report.merge other).2 = .ok ()) (name : String) :
    ((report.merge other).1.class? name).isSome =
      ((report.class? name).isSome || (other.class? name).isSome) := by
  rw [class?_merge hreport hother hok]
  cases report.class? name <;> cases other.class? name <;> rfl

theorem sumOf_merge (hreport : report.Filed) (hother : other.Filed)
    (hcovered : report.MasksCovered) (hotherCovered : other.MasksCovered)
    (hok : (report.merge other).2 = .ok ()) : SumOf report other (report.merge other).1 := by
  have hclasses := isSome_class?_merge hreport hother hok
  refine ⟨hclasses, fun name line ↦ ?_, fun name line record hrecord ↦ ?_⟩
  · have hname := hclasses name
    cases hstore : (report.merge other).1.class? name with
    | none =>
      rw [hstore, Option.isSome_none, eq_comm, Bool.or_eq_false_iff, Option.isSome_eq_false_iff,
        Option.isSome_eq_false_iff, Option.isNone_iff_eq_none, Option.isNone_iff_eq_none] at hname
      simp [record?, hstore, hname]
    | some store =>
      obtain ⟨hours, htheirs⟩ | ⟨hours, htheirs⟩ | ⟨ours, theirs, hours, htheirs, hsum⟩ :=
        class?_merge_cases hreport hother hok hstore
      · simp [record?, hstore, hours, htheirs]
      · simp [record?, hstore, hours, htheirs]
      · simp only [record?, hstore, hours, htheirs, Option.bind_some,
          ClassStore.isSome_line?_foldMask]
        exact hsum.containsLine_eq line
  · obtain ⟨store, hstore, hfound⟩ := Option.bind_eq_some_iff.mp hrecord
    obtain ⟨hours, htheirs⟩ | ⟨hours, htheirs⟩ | ⟨ours, theirs, hours, htheirs, hsum⟩ :=
      class?_merge_cases hreport hother hok hstore
    · rw [record?, record?, hours, htheirs, Option.bind_none, Option.bind_some, hfound]
      exact LineRecord.sumOf_none_left record
    · rw [record?, record?, hours, htheirs, Option.bind_none, Option.bind_some, hfound]
      exact LineRecord.sumOf_none_right record
    · rw [record?, record?, hours, htheirs]
      exact hsum.sumOf_foldMask (hcovered name ours hours) (hotherCovered name theirs htheirs)
        hfound

theorem MasksCovered.merge (hreport : report.Filed) (hother : other.Filed)
    (hcovered : report.MasksCovered) (hotherCovered : other.MasksCovered)
    (hok : (report.merge other).2 = .ok ()) : (report.merge other).1.MasksCovered := by
  intro name store hstore
  obtain ⟨-, htheirs⟩ | ⟨hours, -⟩ | ⟨ours, theirs, hours, -, hsum⟩ :=
    class?_merge_cases hreport hother hok hstore
  · exact hotherCovered name store htheirs
  · exact hcovered name store hours
  · exact hsum.maskCovered (hcovered name ours hours)

end Report

end JvmCoverage
