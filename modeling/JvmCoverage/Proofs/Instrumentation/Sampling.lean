import JvmCoverage.Proofs.Class.Executions
import JvmCoverage.Proofs.Instrumentation.Frame
/-!
# Sampling counts what tracing counts

In sampling mode the executions of a class are counted by position in its mask, and a save moves
them into the records. In tracing mode they are counted in the records at once. A pass makes the
same records in both modes when no branches are counted (`ClassPass.instrumentAll_withSettings`),
and a mask that is opened at the end of the pass has a counter for every line with a record. So the
two ways of counting leave one and the same store behind a save
(`ClassPass.save_sampled_eq_save_traced`).
-/

set_option autoImplicit false
set_option relaxedAutoImplicit false

namespace JvmCoverage

/-! ### Settings that make the same records -/

namespace MethodPass

/-- Beyond the choice of the filters, a pass asks its settings only whether branches are counted. -/
theorem visit_withSettings (pass : MethodPass) (settings : Settings)
    (hcounts : settings.countsBranches = pass.settings.countsBranches)
    (instruction : Instruction) :
    ({ pass with settings } : MethodPass).visit instruction =
      { pass.visit instruction with settings } := by
  have hdeclare (declareOn : ClassStore → UInt32 → ClassStore) :
      ({ pass with settings } : MethodPass).declare declareOn =
        { pass.declare declareOn with settings } := by
    simp only [declare, hcounts]
    split
    · split <;> rfl
    · rfl
  have hrecord : ({ pass with settings } : MethodPass).record instruction =
      { pass.record instruction with settings } := by
    unfold record
    split
    · split
      · exact hdeclare _
      · rfl
    · exact hdeclare _
    · exact hdeclare _
    · rfl
  obtain ⟨line, rfl⟩ | hmarker := instruction.eq_marker_or
  · rfl
  · rw [visit_eq hmarker, visit_eq hmarker, hrecord]
    rfl

theorem visitAll_withSettings (pass : MethodPass) (settings : Settings)
    (hcounts : settings.countsBranches = pass.settings.countsBranches)
    (instructions : List Instruction) :
    ({ pass with settings } : MethodPass).visitAll instructions =
      { pass.visitAll instructions with settings } := by
  induction instructions generalizing pass with
  | nil => rfl
  | cons instruction rest ih =>
    refine Eq.trans ?_ (ih (pass.visit instruction) (by rw [settings_visit, hcounts]))
    exact congrArg (visitAll · rest) (pass.visit_withSettings settings hcounts instruction)

end MethodPass

namespace ClassPass

theorem instrument_withSettings (pass : ClassPass) (settings : Settings)
    (hfilters : settings.filters = pass.settings.filters)
    (hcounts : settings.countsBranches = pass.settings.countsBranches) (method : MethodInfo)
    (instructions : List Instruction) :
    ({ pass with settings } : ClassPass).instrument method instructions =
      ({ (pass.instrument method instructions).1 with settings },
        (pass.instrument method instructions).2) := by
  have hbegun : ({ pass with settings } : ClassPass).beginMethod method =
      { pass.beginMethod method with settings } := by
    simp only [beginMethod, MethodPass.start, hfilters]
  simp only [instrument, hbegun, (pass.beginMethod method).visitAll_withSettings settings hcounts]
  rfl

theorem instrumentAll_withSettings (pass : ClassPass) (settings : Settings)
    (hfilters : settings.filters = pass.settings.filters)
    (hcounts : settings.countsBranches = pass.settings.countsBranches)
    (methods : List (MethodInfo × List Instruction)) :
    ({ pass with settings } : ClassPass).instrumentAll methods =
      { pass.instrumentAll methods with settings } := by
  induction methods generalizing pass with
  | nil => rfl
  | cons method rest ih =>
    refine Eq.trans ?_ (ih (pass.instrument method.1 method.2).1 hfilters hcounts)
    refine congrArg (instrumentAll · rest) ?_
    exact congrArg Prod.fst
      (pass.instrument_withSettings settings hfilters hcounts method.1 method.2)

end ClassPass

/-! ### Two ways of counting -/

theorem LineTable.eq_of_find?_eq {first second : LineTable} (hfirst : first.isDense = false)
    (hsecond : second.isDense = false) (hfind : ∀ line, first.find? line = second.find? line) :
    first = second := by
  rcases first with lines | slots
  · rcases second with others | slots
    · exact congrArg sparse (Std.ExtTreeMap.ext_getElem? hfind)
    · cases hsecond
  · cases hfirst

namespace ClassStore

/-- Executions that are counted in the records. -/
theorem line?_hitLines (store : ClassStore) (executed : List UInt32) (line : UInt32) :
    (executed.foldl hitLine store).line? line =
      (store.line? line).map (·.addHits (UInt32.ofNat (executed.count line))) := by
  induction executed generalizing store with
  | nil => simp
  | cons first rest ih =>
    rw [List.foldl_cons, ih, hitLine, line?_modifyLine, List.count_cons]
    by_cases hfirst : line = first
    · subst hfirst
      cases store.line? line with
      | none => simp
      | some record =>
        simp [LineRecord.hit, LineRecord.addHits, Counter.hit, Counter.add, UInt32.add_assoc,
          UInt32.add_comm]
    · simp [hfirst, Ne.symm hfirst]

theorem hitLines_eq (store : ClassStore) (executed : List UInt32) :
    executed.foldl hitLine store =
      { store with table := (executed.foldl hitLine store).table } := by
  induction executed generalizing store with
  | nil => rfl
  | cons first rest ih => exact ih (store.hitLine first)

theorem hitMasks_eq (store : ClassStore) (executed : List UInt32) :
    executed.foldl hitMask store =
      { store with mask := (executed.foldl hitMask store).mask } := by
  induction executed generalizing store with
  | nil => rfl
  | cons first rest ih => exact ih (store.hitMask first)

theorem maskCovers_hitMask (store : ClassStore) (other line : UInt32) :
    (store.hitMask other).maskCovers line = store.maskCovers line := by
  unfold maskCovers hitMask
  cases store.mask with
  | none => rfl
  | some mask =>
    show decide (line.toNat < (mask.slots.modify _ _).size) = decide (line.toNat < mask.slots.size)
    simp only [Array.size_modify]

/-- Executions that are counted in the mask. -/
theorem maskCount_hitMasks (store : ClassStore) (executed : List UInt32) {line : UInt32}
    (hcovers : store.maskCovers line = true) :
    (executed.foldl hitMask store).maskCount line =
      store.maskCount line + UInt32.ofNat (executed.count line) := by
  induction executed generalizing store with
  | nil => simp
  | cons first rest ih =>
    have hnext : (store.hitMask first).maskCovers line = true := by rw [maskCovers_hitMask, hcovers]
    rw [List.foldl_cons, ih _ hnext, maskCount_hitMask, List.count_cons]
    by_cases hfirst : first = line
    · simp [hfirst, hcovers, UInt32.add_assoc, UInt32.add_comm 1]
    · simp [hfirst]

/-- A mask that is opened for the lines of a store has a counter for each of them. -/
theorem maskCovers_openMask {store : ClassStore} (hstore : store.WellFormed)
    (hlines : store.maxLine ≤ highestLineNumber) {line : UInt32} {record : LineRecord}
    (hrecord : store.line? line = some record) :
    (store.openMask store.maxLine).maskCovers line = true := by
  have hline := UInt32.le_iff_toNat_le.mp (hstore.filed.le_maxLine hrecord)
  have hsize : (CounterBank.zeros ((min store.maxLine highestLineNumber).toNat + 1)).size =
      store.maxLine.toNat + 1 := by
    have hmin : min store.maxLine highestLineNumber = store.maxLine := if_pos hlines
    rw [CounterBank.zeros, CounterBank.size, Array.size_replicate, hmin]
  show decide (line.toNat < CounterBank.size _) = true
  rw [hsize, decide_eq_true_iff]
  omega

theorem isDense_hitLines (store : ClassStore) (executed : List UInt32) :
    (executed.foldl hitLine store).isDense = store.isDense := by
  induction executed generalizing store with
  | nil => rfl
  | cons first rest ih =>
    refine (ih (store.hitLine first)).trans ?_
    show (store.table.modify first _).isDense = store.table.isDense
    cases store.table <;> rfl

theorem isDense_foldMask (store : ClassStore) : store.foldMask.isDense = store.isDense := by
  unfold foldMask
  split
  · show (store.table.mapKeyed _).isDense = store.table.isDense
    cases store.table <;> rfl
  · rfl

/-- To count in a fresh mask and to fold it is to count in the records. -/
theorem foldMask_hitMasks {store : ClassStore} (hstore : store.WellFormed)
    (hmask : store.mask = none) (hsparse : store.isDense = false)
    (hlines : store.maxLine ≤ highestLineNumber) (executed : List UInt32) :
    (executed.foldl hitMask (store.openMask store.maxLine)).foldMask =
      executed.foldl hitLine store := by
  let sampled := executed.foldl hitMask (store.openMask store.maxLine)
  have hsampled : sampled = { store with mask := sampled.mask } := hitMasks_eq _ executed
  have htable : sampled.foldMask.table = (executed.foldl hitLine store).table := by
    refine LineTable.eq_of_find?_eq ?_ ?_ fun line ↦ ?_
    · refine (isDense_foldMask sampled).trans ?_
      rw [hsampled]
      exact hsparse
    · exact (isDense_hitLines store executed).trans hsparse
    · refine (line?_foldMask sampled line).trans ?_
      refine Eq.trans ?_ (line?_hitLines store executed line).symm
      have hsame : sampled.line? line = store.line? line := by rw [hsampled]; rfl
      rw [hsame]
      cases hrecord : store.line? line with
      | none => rfl
      | some record =>
        have hcovers := maskCovers_openMask hstore hlines hrecord
        have hcount := maskCount_hitMasks _ executed hcovers
        rw [maskCount_openMask, UInt32.zero_add] at hcount
        rw [Option.map_some, Option.map_some, hcount]
  have hfolded : sampled.foldMask =
      { sampled with table := sampled.foldMask.table, mask := none } := by
    unfold foldMask
    split
    · rfl
    · next hnone => rw [← hnone]
  refine hfolded.trans ?_
  rw [htable, hsampled, hitLines_eq store executed, ← hmask]

end ClassStore

/-! ### Whole runs -/

/-- A class that was made and instrumented has a sparse table. -/
theorem PassInvariant.sparse : PassInvariant (fun _ ↦ True) fun store ↦ store.isDense = false where
  ensureLine _ _ _ := rfl
  restructureLine hsparse line f := by
    unfold ClassStore.restructureLine
    split
    · rfl
    · exact hsparse

theorem PassInvariant.maxLine_le (highest : UInt32) :
    PassInvariant (· ≤ highest) fun store ↦ store.maxLine ≤ highest where
  ensureLine {store line} hline hmax _ := by
    show max store.maxLine line ≤ highest
    rw [UInt32.le_iff_toNat_le, toNat_max]
    exact Nat.max_le.mpr ⟨UInt32.le_iff_toNat_le.mp hmax, UInt32.le_iff_toNat_le.mp hline⟩
  restructureLine hmax line f := by
    unfold ClassStore.restructureLine
    split <;> exact hmax

namespace ClassPass

/-- A class that is instrumented for sampling and counted in its mask is saved as the class that is
instrumented for tracing without branches and counted in its records: the same bytes are written,
and the stores that are left are equal and have no mask. -/
theorem save_sampled_eq_save_traced (name : String) (filters : FilterSettings)
    (branchCoverage : Bool) {methods : List (MethodInfo × List Instruction)}
    (hlines : ∀ method ∈ methods, ∀ line, .marker line ∈ method.2 → line ≤ highestLineNumber)
    (executed : List UInt32) (dictionary : Dictionary) (sink : Sink) :
    let sampling : ClassPass :=
      { store := { name }, settings := { mode := .sampling, branchCoverage, filters } }
    let tracing : ClassPass :=
      { store := { name }, settings := { mode := .tracing, branchCoverage := false, filters } }
    let sampled := executed.foldl ClassStore.hitMask (sampling.instrumentAll methods).finish
    let traced := executed.foldl ClassStore.hitLine (tracing.instrumentAll methods).finish
    sampled.save dictionary sink = traced.save dictionary sink ∧
      (sampled.save dictionary sink).store.mask = none := by
  intro sampling tracing sampled traced
  let store := (tracing.instrumentAll methods).store
  have hsampling : sampling.instrumentAll methods =
      { tracing.instrumentAll methods with settings := sampling.settings } :=
    tracing.instrumentAll_withSettings sampling.settings rfl rfl methods
  have hfinish : (sampling.instrumentAll methods).finish = store.openMask store.maxLine := by
    rw [hsampling]
    rfl
  have htraced : traced = executed.foldl ClassStore.hitLine store := by
    have hsettings := tracing.settings_instrumentAll methods
    show executed.foldl ClassStore.hitLine (tracing.instrumentAll methods).finish = _
    rw [finish, hsettings]
  have hfresh : tracing.store.Reachable := .fresh name
  have hmask : store.mask = none := tracing.mask_instrumentAll methods
  have hsparse : store.isDense = false :=
    PassInvariant.sparse.instrumentAll rfl fun _ _ _ _ ↦ trivial
  have hmax : store.maxLine ≤ highestLineNumber :=
    (PassInvariant.maxLine_le highestLineNumber).instrumentAll (UInt32.zero_le) hlines
  have hfolded : sampled.foldMask = traced := by
    rw [htraced, ← ClassStore.foldMask_hitMasks (reachable_instrumentAll hfresh methods).wellFormed
      hmask hsparse hmax executed, ← hfinish]
  have hunmasked : traced.foldMask = traced := by
    rw [← hfolded, ClassStore.foldMask_foldMask]
  refine ⟨?_, sampled.mask_foldMask⟩
  rw [ClassStore.save, ClassStore.save, hfolded, hunmasked]

/-- Line 7 is counted twice, line 8 is retracted, and nothing is known of lines 9 and 70000. -/
theorem save_sampled_eq_save_traced_of_retracted_line :
    let method : MethodInfo := ⟨"C", "m", "()V", 52⟩
    let instructions : List Instruction := [.marker 7, .iload 1, .jumpAnywhere .ifEq, .marker 8,
      .aload 1, .invokeVirtual "java/io/Reader" "close" "()V"]
    let sampling : ClassPass := { store := { name := "C" }, settings := { mode := .sampling } }
    let tracing : ClassPass :=
      { store := { name := "C" }, settings := { branchCoverage := false } }
    let executed : List UInt32 := [7, 8, 70000, 7, 9]
    let sampled :=
      executed.foldl ClassStore.hitMask (sampling.instrumentAll [(method, instructions)]).finish
    let traced :=
      executed.foldl ClassStore.hitLine (tracing.instrumentAll [(method, instructions)]).finish
    (∀ line, .marker line ∈ instructions → line ≤ highestLineNumber) ∧
      sampled.save {} {} = traced.save {} {} ∧
      (sampled.save {} {}).store.line? 7 =
        some { line := 7, signature := "m()V", hits := ⟨2⟩ } ∧
      (sampled.save {} {}).store.line? 8 = none := by
  intro method instructions sampling tracing executed sampled traced
  have hlines (line : UInt32) (hline : .marker line ∈ instructions) : line ≤ highestLineNumber := by
    have hmarked : line = 7 ∨ line = 8 := by
      simpa [instructions, Instruction.iload, Instruction.aload, Instruction.jumpAnywhere,
        Instruction.invokeVirtual] using hline
    rcases hmarked with rfl | rfl <;> decide
  refine ⟨hlines, (save_sampled_eq_save_traced "C" {} true ?_ executed {} {}).1, by decide +kernel,
    by decide +kernel⟩
  intro entry hentry
  rw [List.mem_singleton] at hentry
  subst hentry
  exact hlines

end ClassPass

end JvmCoverage
