import JvmCoverage.Proofs.Class.WellFormed
import JvmCoverage.Proofs.Line.Merge
/-!
# Merging class stores is all-or-nothing and adds

A merge goes over the lines twice, and only the first pass is meant to fail. It finds nothing to
object to exactly when the stores are of one class and the lines that both have agree in shape
(`ClassStore.conflict?_eq_none_iff`). The second pass meets each line of the other store once and
changes no other line, so the shapes that the first pass compared are still those it finds, and no
record fails (`ClassStore.added_mergeRecords`).

`ClassStore.SumOf` is what a merge leaves behind, read off look-ups. The main statement is
`ClassStore.mergeInPlace_all_or_nothing`.
-/

set_option autoImplicit false
set_option relaxedAutoImplicit false

namespace JvmCoverage

namespace ClassStore

variable {store ours theirs : ClassStore}

/-! ### The first pass -/

/-- Every line that both stores have has the same shape in both. -/
def SameShapes (ours theirs : ClassStore) : Prop :=
  ∀ line our their, ours.line? line = some our → theirs.line? line = some their →
    our.shape = their.shape

theorem lineConflict?_eq_none_iff (htheirs : theirs.WellFormed) :
    lineConflict? ours theirs = none ↔ SameShapes ours theirs := by
  rw [lineConflict?, List.findSome?_eq_none_iff]
  constructor
  · intro hnone line our their hour htheir
    have hline : their.line = line := htheirs.filed.line_eq htheir
    have hmem : their ∈ theirs.records :=
      (LineTable.mem_records_iff htheirs.filed their).mpr (hline ▸ htheir)
    have hfault := hnone their hmem
    rw [hline, hour] at hfault
    refine LineRecord.conflict?_eq_none_iff.mp ?_
    cases hconflict : our.conflict? their with
    | none => rfl
    | some fault =>
      rw [Option.bind_eq_bind, Option.bind_some, hconflict] at hfault
      cases hfault
  · intro hshapes their hmem
    have htheir := (LineTable.mem_records_iff htheirs.filed their).mp hmem
    cases hour : ours.line? their.line with
    | none => rfl
    | some our =>
      have hconflict :=
        LineRecord.conflict?_eq_none_iff.mpr (hshapes their.line our their hour htheir)
      rw [Option.bind_eq_bind, Option.bind_some, hconflict]
      rfl

theorem conflict?_eq_none_iff (htheirs : theirs.WellFormed) :
    conflict? ours theirs = none ↔ ours.name = theirs.name ∧ SameShapes ours theirs := by
  rw [conflict?, ← lineConflict?_eq_none_iff htheirs]
  by_cases hname : ours.name = theirs.name <;> simp [hname]

/-! ### The second pass -/

/-- `merged` is `store` with the records added. -/
structure Added (store : ClassStore) (records : List LineRecord) (merged : ClassStore) : Prop where
  name_eq : merged.name = store.name
  mask_eq : merged.mask = store.mask
  maxLine_eq : merged.maxLine = (records.map LineRecord.line).foldl max store.maxLine
  line?_eq : ∀ line, merged.line? line =
    (store.line? line).merge LineRecord.absorb (records.find? (·.line = line))

theorem added_nil (store : ClassStore) : Added store [] store where
  name_eq := rfl
  mask_eq := rfl
  maxLine_eq := rfl
  line?_eq line := by cases store.line? line <;> rfl

/-- Records of different lines do not meet each other. -/
theorem Added.cons {middle merged : ClassStore} {record : LineRecord} {rest : List LineRecord}
    (hfirst : Added store [record] middle) (hrest : Added middle rest merged)
    (hdistinct : ∀ other ∈ rest, other.line ≠ record.line) :
    Added store (record :: rest) merged where
  name_eq := hrest.name_eq.trans hfirst.name_eq
  mask_eq := hrest.mask_eq.trans hfirst.mask_eq
  maxLine_eq := by
    rw [hrest.maxLine_eq, hfirst.maxLine_eq]
    rfl
  line?_eq line := by
    rw [hrest.line?_eq, hfirst.line?_eq]
    by_cases hline : record.line = line
    · have hnone : rest.find? (·.line = line) = none := by
        rw [List.find?_eq_none]
        intro other hother
        simpa [← hline] using hdistinct other hother
      simp [hnone, hline]
    · simp [hline]

theorem added_mergeRecord (hstore : store.WellFormed) {record : LineRecord}
    (hshape : ∀ our, store.line? record.line = some our → our.shape = record.shape) :
    (store.mergeRecord record).2 = .ok () ∧ Added store [record] (store.mergeRecord record).1 := by
  cases hfound : store.rebuilt.line? record.line with
  | none =>
    rw [mergeRecord_of_absent hfound]
    refine ⟨rfl, rfl, rfl, rfl, fun line ↦ ?_⟩
    rw [line?_adopt hstore.rebuilt, line?_rebuilt hstore]
    rw [line?_rebuilt hstore] at hfound
    by_cases hline : line = record.line
    · simp [hline, hfound]
    · simp [hline, Ne.symm hline]
  | some our =>
    rw [line?_rebuilt hstore] at hfound
    have hmerge : our.merge record = .ok (our.absorb record) :=
      LineRecord.merge_eq_ok_iff.mpr ⟨LineRecord.shapeFault?_eq_none (hshape our hfound), rfl⟩
    rw [mergeRecord_of_merged (line?_rebuilt hstore _ ▸ hfound) hmerge]
    refine ⟨rfl, rfl, rfl, (max_eq_left (hstore.filed.le_maxLine hfound)).symm, fun line ↦ ?_⟩
    rw [line?_modifyLine, line?_rebuilt hstore]
    by_cases hline : line = record.line
    · simp [hline, hfound]
    · simp [hline, Ne.symm hline]

/-- No record fails when each has the shape of the line it meets. -/
theorem added_mergeRecords {records : List LineRecord} (hstore : store.WellFormed)
    (hsized : ∀ record ∈ records, record.Sized)
    (hdistinct : records.Pairwise (·.line < ·.line))
    (hshape : ∀ record ∈ records, ∀ our, store.line? record.line = some our →
      our.shape = record.shape) :
    (store.mergeRecords records).2 = .ok () ∧
      Added store records (store.mergeRecords records).1 := by
  induction records generalizing store with
  | nil => exact ⟨rfl, added_nil store⟩
  | cons record rest ih =>
    obtain ⟨habove, hrest⟩ := List.pairwise_cons.mp hdistinct
    have hne (other : LineRecord) (hother : other ∈ rest) : other.line ≠ record.line :=
      fun heq ↦ UInt32.lt_irrefl _ (heq ▸ habove other hother)
    obtain ⟨houtcome, hadded⟩ := added_mergeRecord hstore (hshape record List.mem_cons_self)
    have hnext := hstore.mergeRecord (hsized record List.mem_cons_self)
    rw [mergeRecords_cons_of_ok houtcome]
    -- the lines of the other records are as they were
    have hshapeNext (other : LineRecord) (hother : other ∈ rest) (our : LineRecord)
        (hour : (store.mergeRecord record).1.line? other.line = some our) :
        our.shape = other.shape := by
      refine hshape other (List.mem_cons_of_mem _ hother) our ?_
      rw [hadded.line?_eq] at hour
      simpa [Ne.symm (hne other hother)] using hour
    obtain ⟨hrestOutcome, hrestAdded⟩ := ih hnext
      (fun other hother ↦ hsized other (List.mem_cons_of_mem _ hother)) hrest hshapeNext
    exact ⟨hrestOutcome, hadded.cons hrestAdded hne⟩

/-! ### Both passes -/

/-- What a record counts, zero for a line without record. -/
def countOf (store : ClassStore) (line : UInt32) (count : LineRecord → UInt32) : UInt32 :=
  (store.line? line).elim 0 count

/-- `merged` has the lines of both stores, and counts on each of them what both counted; what the
mask of `theirs` counted is added to the executions of the line. -/
structure SumOf (ours theirs merged : ClassStore) : Prop where
  name_eq : merged.name = ours.name
  mask_eq : merged.mask = ours.mask
  maxLine_eq : merged.maxLine = theirs.lineNumbers.foldl max ours.maxLine
  containsLine_eq : ∀ line,
    merged.containsLine line = (ours.containsLine line || theirs.containsLine line)
  shape_left : ∀ line record our, merged.line? line = some record →
    ours.line? line = some our → record.shape = our.shape
  shape_right : ∀ line record their, merged.line? line = some record →
    theirs.line? line = some their → record.shape = their.shape
  hits_eq : ∀ line record, merged.line? line = some record → record.hits.value =
    ours.countOf line (·.hits.value) + theirs.countOf line (·.hits.value) + theirs.maskCount line
  branchCount_eq : ∀ line record counter, merged.line? line = some record →
    record.branchCount counter =
      ours.countOf line (·.branchCount counter) + theirs.countOf line (·.branchCount counter)

theorem find?_records (hstore : store.WellFormed) (line : UInt32) :
    store.records.find? (·.line = line) = store.line? line := by
  cases hfind : store.records.find? (·.line = line) with
  | some record =>
    have hmem := List.mem_of_find?_eq_some hfind
    have hline : record.line = line := by simpa using List.find?_some hfind
    exact (hline ▸ (LineTable.mem_records_iff hstore.filed record).mp hmem).symm
  | none =>
    cases hfound : store.line? line with
    | none => rfl
    | some record =>
      have hline := hstore.filed.line_eq hfound
      have hmem := (LineTable.mem_records_iff hstore.filed record).mpr (hline ▸ hfound)
      simpa [hline] using List.find?_eq_none.mp hfind record hmem

theorem line?_mergeMask (merged theirs : ClassStore) (line : UInt32) :
    (merged.mergeMask theirs).line? line =
      (merged.line? line).map (·.addHits (theirs.maskCount line)) := by
  rw [mergeMask, maskCount]
  cases theirs.mask with
  | some mask => exact line?_addMask merged mask line
  | none => simp

/-- Nothing but the records changes with the counts of a mask. -/
theorem mergeMask_frame (merged theirs : ClassStore) :
    (merged.mergeMask theirs).name = merged.name ∧
      (merged.mergeMask theirs).mask = merged.mask ∧
      (merged.mergeMask theirs).maxLine = merged.maxLine := by
  unfold mergeMask
  cases theirs.mask <;> exact ⟨rfl, rfl, rfl⟩

theorem Added.line?_mergeMask {merged : ClassStore} (htheirs : theirs.WellFormed)
    (hadded : Added ours theirs.records merged) (line : UInt32) :
    (merged.mergeMask theirs).line? line =
      ((ours.line? line).merge LineRecord.absorb (theirs.line? line)).map
        (·.addHits (theirs.maskCount line)) := by
  rw [ClassStore.line?_mergeMask, hadded.line?_eq, find?_records htheirs]

theorem sumOf_mergeMask {merged : ClassStore} (hours : ours.WellFormed)
    (htheirs : theirs.WellFormed) (hshapes : SameShapes ours theirs)
    (hadded : Added ours theirs.records merged) : SumOf ours theirs (merged.mergeMask theirs) := by
  obtain ⟨hname, hmask, hmaxLine⟩ := mergeMask_frame merged theirs
  -- the record before the counts of the mask are added to it
  have hsum {line : UInt32} {record : LineRecord}
      (hrecord : (merged.mergeMask theirs).line? line = some record) :
      ∃ sum : LineRecord, sum.addHits (theirs.maskCount line) = record ∧
        LineRecord.SumOf (ours.line? line) (theirs.line? line) sum := by
    rw [hadded.line?_mergeMask htheirs] at hrecord
    obtain ⟨sum, hmerge, heq⟩ := Option.map_eq_some_iff.mp hrecord
    exact ⟨sum, heq, LineRecord.sumOf_of_merge (fun _ _ ↦ hshapes line _ _)
      (fun _ ↦ hours.sized) (fun _ ↦ htheirs.sized) hmerge⟩
  exact {
    name_eq := hname.trans hadded.name_eq
    mask_eq := hmask.trans hadded.mask_eq
    maxLine_eq := hmaxLine.trans hadded.maxLine_eq
    containsLine_eq := fun line ↦ by
      rw [containsLine_eq, containsLine_eq, containsLine_eq, hadded.line?_mergeMask htheirs]
      cases ours.line? line <;> cases theirs.line? line <;> rfl
    shape_left := fun line record our hrecord hour ↦ by
      obtain ⟨sum, rfl, hsum⟩ := hsum hrecord
      exact hsum.shape_left our hour
    shape_right := fun line record their hrecord htheir ↦ by
      obtain ⟨sum, rfl, hsum⟩ := hsum hrecord
      exact hsum.shape_right their htheir
    hits_eq := fun line record hrecord ↦ by
      obtain ⟨sum, rfl, hsum⟩ := hsum hrecord
      exact congrArg (· + theirs.maskCount line) hsum.hits_eq
    branchCount_eq := fun line record counter hrecord ↦ by
      obtain ⟨sum, rfl, hsum⟩ := hsum hrecord
      rw [LineRecord.branchCount_addHits]
      exact hsum.branchCount_eq counter }

/-- The records of a store that agrees in shape can be added. -/
theorem added_of_sameShapes (hours : ours.WellFormed) (htheirs : theirs.WellFormed)
    (hshapes : SameShapes ours theirs) :
    (ours.mergeRecords theirs.records).2 = .ok () ∧
      Added ours theirs.records (ours.mergeRecords theirs.records).1 :=
  added_mergeRecords hours (fun _ ↦ htheirs.sized_of_mem)
    (LineTable.pairwise_records htheirs.filed) fun record hmem our hour ↦
      hshapes record.line our record hour
        ((LineTable.mem_records_iff htheirs.filed record).mp hmem)

theorem mergeInPlace_eq_ok_iff (hours : ours.WellFormed) (htheirs : theirs.WellFormed) :
    (ours.mergeInPlace theirs).2 = .ok () ↔
      ours.name = theirs.name ∧ SameShapes ours theirs := by
  rw [← conflict?_eq_none_iff htheirs]
  cases hfirst : ours.conflict? theirs with
  | some error => simp [mergeInPlace_of_conflict hfirst]
  | none =>
    have hsame := (conflict?_eq_none_iff htheirs).mp hfirst
    simp [mergeInPlace_of_ok hfirst (added_of_sameShapes hours htheirs hsame.2).1]

/-- Only the first pass fails, and it changes nothing. -/
theorem mergeInPlace_unchanged (hours : ours.WellFormed) (htheirs : theirs.WellFormed)
    {error : Failure} (herror : (ours.mergeInPlace theirs).2 = .error error) :
    (ours.mergeInPlace theirs).1 = ours := by
  cases hfirst : ours.conflict? theirs with
  | some conflict => rw [mergeInPlace_of_conflict hfirst]
  | none =>
    have hsame := (conflict?_eq_none_iff htheirs).mp hfirst
    rw [(mergeInPlace_eq_ok_iff hours htheirs).mpr hsame] at herror
    cases herror

theorem sumOf_mergeInPlace (hours : ours.WellFormed) (htheirs : theirs.WellFormed)
    (hok : (ours.mergeInPlace theirs).2 = .ok ()) :
    SumOf ours theirs (ours.mergeInPlace theirs).1 := by
  have hsame := (mergeInPlace_eq_ok_iff hours htheirs).mp hok
  obtain ⟨houtcome, hadded⟩ := added_of_sameShapes hours htheirs hsame.2
  rw [mergeInPlace_of_ok ((conflict?_eq_none_iff htheirs).mpr hsame) houtcome]
  exact sumOf_mergeMask hours htheirs hsame.2 hadded

/-- A merge succeeds exactly when both stores are of one class and agree in the shapes of the lines
they share. It leaves the store as it was when it fails, and the sum of the two when it succeeds. -/
theorem mergeInPlace_all_or_nothing (hours : ours.Reachable) (htheirs : theirs.Reachable) :
    ((ours.mergeInPlace theirs).2 = .ok () ↔
        ours.name = theirs.name ∧ SameShapes ours theirs) ∧
      (∀ error, (ours.mergeInPlace theirs).2 = .error error →
        (ours.mergeInPlace theirs).1 = ours) ∧
      ((ours.mergeInPlace theirs).2 = .ok () →
        SumOf ours theirs (ours.mergeInPlace theirs).1) := by
  have hiff := mergeInPlace_eq_ok_iff hours.wellFormed htheirs.wellFormed
  refine ⟨hiff, fun error herror ↦ ?_, sumOf_mergeInPlace hours.wellFormed htheirs.wellFormed⟩
  exact mergeInPlace_unchanged hours.wellFormed htheirs.wellFormed herror

/-- A line that both stores have, one that is new, and a mask that was not folded. -/
theorem mergeInPlace_all_or_nothing_of_mask :
    let ours := ClassOp.applyAll [.ensureLine 3 "m()V" [.addJump 0, .hitJump 0 true]]
      { name := "C" }
    let theirs := ClassOp.applyAll [.ensureLine 3 "m()V" [.addJump 0, .hitJump 0 true],
      .ensureLine 4 "m()V" [.hit], .openMask 4, .hitMask 4] { name := "C" }
    ours.Reachable ∧ theirs.Reachable ∧ (ours.mergeInPlace theirs).2 = .ok () ∧
      SumOf ours theirs (ours.mergeInPlace theirs).1 := by
  intro ours theirs
  have hours : ours.Reachable := Reachable.applyAll (.fresh "C") (by simp)
  have htheirs : theirs.Reachable := Reachable.applyAll (.fresh "C") (by simp)
  have hok : (ours.mergeInPlace theirs).2 = .ok () := by decide +kernel
  exact ⟨hours, htheirs, hok, (mergeInPlace_all_or_nothing hours htheirs).2.2 hok⟩

end ClassStore

end JvmCoverage
