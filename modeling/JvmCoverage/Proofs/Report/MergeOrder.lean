import JvmCoverage.Proofs.Report.Merge
import Mathlib.Algebra.BigOperators.Group.List.Basic
import Mathlib.Data.UInt
/-!
# Merging reports in any order and grouping

A `MergePlan` says which reports are merged into which, and in what order. Whatever the plan, a line
counts the sum of what it counts in the reports of the plan (`Report.Total`), so two plans for the
same reports lead to reports that are saved alike, and both succeed exactly when any two of the
reports agree in the shapes of the lines that they share (`MergePlan.run_spec`).

This needs masks that count nothing on lines without record: a count that is lost when the mask is
folded would be kept by a merge that brings the line before. Two reports alone can be merged either
way whatever their masks count, because then both records meet both masks.
`Report.merge_order_independent` is the main statement.
-/

set_option autoImplicit false
set_option relaxedAutoImplicit false

namespace JvmCoverage

namespace LineRecord

/-- The executions of a line, or a counter of one of its branches. -/
def count (record : LineRecord) : Option BranchCounter → UInt32
  | none => record.hits.value
  | some counter => record.branchCount counter

theorem SumOf.count_eq {our? their? : Option LineRecord} {sum : LineRecord}
    (hsum : SumOf our? their? sum) (counter? : Option BranchCounter) :
    sum.count counter? = our?.elim 0 (·.count counter?) + their?.elim 0 (·.count counter?) := by
  cases counter? with
  | none => exact hsum.hits_eq
  | some counter => exact hsum.branchCount_eq counter

end LineRecord

namespace Report

variable {report other first second merged : Report} {reports others firsts seconds : List Report}

/-! ### Sums of reports -/

/-- What a report counts on a line, zero when it does not have the line. -/
def countOf (report : Report) (name : String) (line : UInt32) (counter? : Option BranchCounter) :
    UInt32 :=
  (report.record? name line).elim 0 (·.count counter?)

/-- The report has the classes and lines of all the reports, and counts on each line what they
count together. -/
structure Total (reports : List Report) (result : Report) : Prop where
  isSome_class?_iff : ∀ name, (result.class? name).isSome = true ↔
    ∃ report ∈ reports, (report.class? name).isSome = true
  isSome_record?_iff : ∀ name line, (result.record? name line).isSome = true ↔
    ∃ report ∈ reports, (report.record? name line).isSome = true
  shape_eq : ∀ name line record part report, result.record? name line = some record →
    report ∈ reports → report.record? name line = some part → record.shape = part.shape
  countOf_eq : ∀ name line counter?, result.countOf name line counter? =
    (reports.map (·.countOf name line counter?)).sum

theorem total_single (report : Report) : Total [report] report where
  isSome_class?_iff name := by simp
  isSome_record?_iff name line := by simp
  shape_eq name line record part other hrecord hmem hpart := by
    rw [List.mem_singleton.mp hmem, hrecord] at hpart
    rw [Option.some.inj hpart]
  countOf_eq name line counter? := by simp

theorem SumOf.countOf_eq (hsum : SumOf first second merged) (name : String) (line : UInt32)
    (counter? : Option BranchCounter) :
    merged.countOf name line counter? =
      first.countOf name line counter? + second.countOf name line counter? := by
  cases hrecord : merged.record? name line with
  | none =>
    have hsome := hsum.isSome_record? name line
    rw [hrecord, Option.isSome_none, eq_comm, Bool.or_eq_false_iff] at hsome
    simp only [countOf, hrecord, Option.not_isSome_iff_eq_none.mp (Bool.not_eq_true _ ▸ hsome.1),
      Option.not_isSome_iff_eq_none.mp (Bool.not_eq_true _ ▸ hsome.2)]
    rfl
  | some record =>
    rw [countOf, hrecord]
    exact (hsum.record name line record hrecord).count_eq counter?

theorem Total.append (hfirst : Total firsts first) (hsecond : Total seconds second)
    (hsum : SumOf first second merged) : Total (firsts ++ seconds) merged where
  isSome_class?_iff name := by
    rw [hsum.isSome_class?, Bool.or_eq_true, hfirst.isSome_class?_iff, hsecond.isSome_class?_iff]
    simp only [List.mem_append, or_and_right, exists_or]
  isSome_record?_iff name line := by
    rw [hsum.isSome_record?, Bool.or_eq_true, hfirst.isSome_record?_iff,
      hsecond.isSome_record?_iff]
    simp only [List.mem_append, or_and_right, exists_or]
  shape_eq name line record part report hrecord hmem hpart := by
    have hparts := hsum.record name line record hrecord
    rcases List.mem_append.mp hmem with hmem | hmem
    · obtain ⟨our, hour⟩ := Option.isSome_iff_exists.mp
        ((hfirst.isSome_record?_iff name line).mpr ⟨report, hmem, by rw [hpart]; rfl⟩)
      exact (hparts.shape_left our hour).trans
        (hfirst.shape_eq name line our part report hour hmem hpart)
    · obtain ⟨their, htheir⟩ := Option.isSome_iff_exists.mp
        ((hsecond.isSome_record?_iff name line).mpr ⟨report, hmem, by rw [hpart]; rfl⟩)
      exact (hparts.shape_right their htheir).trans
        (hsecond.shape_eq name line their part report htheir hmem hpart)
  countOf_eq name line counter? := by
    rw [hsum.countOf_eq, hfirst.countOf_eq, hsecond.countOf_eq, List.map_append, List.sum_append]

/-- Sums of compatible reports are compatible, and only those. -/
theorem Total.compatible_iff (hfirst : Total firsts first) (hsecond : Total seconds second) :
    first.Compatible second ↔ ∀ report ∈ firsts, ∀ other ∈ seconds, report.Compatible other := by
  simp only [Report.compatible_iff]
  constructor
  · intro hshapes report hreport other hother name line our their hour htheir
    obtain ⟨sum, hsum⟩ := Option.isSome_iff_exists.mp
      ((hfirst.isSome_record?_iff name line).mpr ⟨report, hreport, by rw [hour]; rfl⟩)
    obtain ⟨theirSum, htheirSum⟩ := Option.isSome_iff_exists.mp
      ((hsecond.isSome_record?_iff name line).mpr ⟨other, hother, by rw [htheir]; rfl⟩)
    rw [← hfirst.shape_eq name line sum our report hsum hreport hour,
      ← hsecond.shape_eq name line theirSum their other htheirSum hother htheir]
    exact hshapes name line sum theirSum hsum htheirSum
  · intro hshapes name line sum theirSum hsum htheirSum
    obtain ⟨report, hreport, hour⟩ :=
      (hfirst.isSome_record?_iff name line).mp (by rw [hsum]; rfl)
    obtain ⟨our, hour⟩ := Option.isSome_iff_exists.mp hour
    obtain ⟨other, hother, htheir⟩ :=
      (hsecond.isSome_record?_iff name line).mp (by rw [htheirSum]; rfl)
    obtain ⟨their, htheir⟩ := Option.isSome_iff_exists.mp htheir
    rw [hfirst.shape_eq name line sum our report hsum hreport hour,
      hsecond.shape_eq name line theirSum their other htheirSum hother htheir]
    exact hshapes report hreport other hother name line our their hour htheir

/-! ### Records with the same sums -/

theorem Filed.record? (hfiled : report.Filed) {name : String} {line : UInt32} {record : LineRecord}
    (hrecord : report.record? name line = some record) : record.line = line ∧ record.Sized := by
  obtain ⟨store, hstore, hrecord⟩ := Option.bind_eq_some_iff.mp hrecord
  have hfolded := (hfiled name store hstore).2.wellFormed.foldMask
  exact ⟨hfolded.filed.line_eq hrecord, hfolded.sized hrecord⟩

/-- Reports with the same classes and the same records are saved alike. -/
theorem savesAlike_of_record?_eq (hfirst : first.Filed) (hsecond : second.Filed)
    (hclass : ∀ name, (first.class? name).isSome = (second.class? name).isSome)
    (hrecord : ∀ name line, first.record? name line = second.record? name line) :
    first.SavesAlike second := by
  refine savesAlike_of_fields_eq hfirst hsecond (fields_congr hfirst hsecond fun name ↦ ?_)
  have hsome := hclass name
  have hlines := hrecord name
  unfold Report.record? at hlines
  cases hours : first.class? name with
  | none =>
    rw [hours, Option.isSome_none, eq_comm, ← Bool.not_eq_true,
      Option.not_isSome_iff_eq_none] at hsome
    rw [hsome]
    exact .none
  | some ours =>
    rw [hours, Option.isSome_some, eq_comm, Option.isSome_iff_exists] at hsome
    obtain ⟨theirs, htheirs⟩ := hsome
    rw [hours, htheirs] at hlines
    rw [htheirs]
    exact .some hlines

theorem Total.savesAlike (hfirst : Total reports first) (hsecond : Total others second)
    (hperm : reports.Perm others) (hfirstFiled : first.Filed) (hsecondFiled : second.Filed) :
    first.SavesAlike second := by
  refine savesAlike_of_record?_eq hfirstFiled hsecondFiled (fun name ↦ ?_) fun name line ↦ ?_
  · rw [Bool.eq_iff_iff, hfirst.isSome_class?_iff, hsecond.isSome_class?_iff]
    simp only [hperm.mem_iff]
  · have hsome : (first.record? name line).isSome = (second.record? name line).isSome := by
      rw [Bool.eq_iff_iff, hfirst.isSome_record?_iff, hsecond.isSome_record?_iff]
      simp only [hperm.mem_iff]
    refine eq_of_isSome_eq hsome fun our their hour htheir ↦ ?_
    have hcount (counter? : Option BranchCounter) : our.count counter? = their.count counter? := by
      have hsum := hfirst.countOf_eq name line counter?
      rw [(hperm.map _).sum_eq, ← hsecond.countOf_eq] at hsum
      simpa only [countOf, hour, htheir, Option.elim_some] using hsum
    obtain ⟨report, hreport, hpart⟩ :=
      (hfirst.isSome_record?_iff name line).mp (by rw [hour]; rfl)
    obtain ⟨part, hpart⟩ := Option.isSome_iff_exists.mp hpart
    obtain ⟨hline, hsized⟩ := hfirstFiled.record? hour
    obtain ⟨htheirLine, htheirSized⟩ := hsecondFiled.record? htheir
    refine LineRecord.eq_of_counts (hline.trans htheirLine.symm) ?_ hsized htheirSized
      (hcount none) fun counter ↦ hcount (some counter)
    exact (hfirst.shape_eq name line our part report hour hreport hpart).trans
      (hsecond.shape_eq name line their part report htheir (hperm.mem_iff.mp hreport) hpart).symm

/-! ### Two reports -/

theorem Compatible.symm (hcompatible : report.Compatible other) : other.Compatible report :=
  fun name ours theirs hours htheirs line our their hour htheir ↦
    (hcompatible name theirs ours htheirs hours line their our htheir hour).symm

/-- Two reports can be merged either way, whatever their masks count. -/
theorem savesAlike_merge_comm (hreport : report.Filed) (hother : other.Filed)
    (hcompatible : report.Compatible other) :
    (report.merge other).1.SavesAlike (other.merge report).1 := by
  have hok := (merge_eq_ok_iff hreport hother).mpr hcompatible
  have hreversedOk := (merge_eq_ok_iff hother hreport).mpr hcompatible.symm
  have hclass := class?_merge hreport hother hok
  have hreversed := class?_merge hother hreport hreversedOk
  have hfiled := hreport.merge hother
  have hreversedFiled := hother.merge hreport
  refine savesAlike_of_record?_eq hfiled hreversedFiled (fun name ↦ ?_) fun name line ↦ ?_
  · rw [isSome_class?_merge hreport hother hok, isSome_class?_merge hother hreport hreversedOk,
      Bool.or_comm]
  · rw [record?, record?]
    cases hours : report.class? name with
    | none =>
      rw [hclass, hreversed, hours]
      cases other.class? name <;> rfl
    | some ours =>
      cases htheirs : other.class? name with
      | none =>
        rw [hclass, hreversed, hours, htheirs]
        rfl
      | some theirs =>
        have hfound := hclass name
        have hreversedFound := hreversed name
        rw [hours, htheirs] at hfound hreversedFound
        rw [hfound, hreversedFound]
        exact (sumOf_mergeInPlace hreport hother hcompatible hours htheirs).line?_foldMask_comm
          (sumOf_mergeInPlace hother hreport hcompatible.symm htheirs hours)
          (hfiled name _ hfound).2.wellFormed (hreversedFiled name _ hreversedFound).2.wellFormed
          line

/-! ### Merging one after another -/

/-- The report with another merged into it, or why that cannot be done. -/
def joined (report other : Report) : Except Failure Report :=
  match report.merge other with
  | (result, .ok ()) => .ok result
  | (_, .error error) => .error error

/-- Merges reports one after another into an empty one. -/
def mergeAll (reports : List Report) : Except Failure Report := reports.foldlM joined {}

theorem joined_eq_ok_iff {result : Report} :
    report.joined other = .ok result ↔
      (report.merge other).2 = .ok () ∧ (report.merge other).1 = result := by
  unfold joined
  rcases report.merge other with ⟨next, _ | _⟩ <;> simp

/-- The report came of merging others, and can be merged further. -/
structure MergeOf (reports : List Report) (result : Report) : Prop where
  filed : result.Filed
  masksCovered : result.MasksCovered
  total : Total reports result

theorem MergeOf.exists_joined_iff (hfirst : MergeOf firsts first)
    (hsecond : MergeOf seconds second) :
    (∃ result, first.joined second = .ok result) ↔
      ∀ report ∈ firsts, ∀ other ∈ seconds, report.Compatible other := by
  rw [← hfirst.total.compatible_iff hsecond.total, ← merge_eq_ok_iff hfirst.filed hsecond.filed]
  constructor
  · intro ⟨result, hjoined⟩
    exact (joined_eq_ok_iff.mp hjoined).1
  · exact fun hok ↦ ⟨_, joined_eq_ok_iff.mpr ⟨hok, rfl⟩⟩

theorem MergeOf.joined {result : Report} (hfirst : MergeOf firsts first)
    (hsecond : MergeOf seconds second) (hjoined : first.joined second = .ok result) :
    MergeOf (firsts ++ seconds) result := by
  obtain ⟨hok, rfl⟩ := joined_eq_ok_iff.mp hjoined
  exact {
    filed := hfirst.filed.merge hsecond.filed
    masksCovered :=
      hfirst.masksCovered.merge hfirst.filed hsecond.filed hsecond.masksCovered hok
    total := hfirst.total.append hsecond.total
      (sumOf_merge hfirst.filed hsecond.filed hfirst.masksCovered hsecond.masksCovered hok) }

end Report

/-- Which report is merged into which, and in what order. -/
inductive MergePlan
  | single (report : Report)
  | merge (target other : MergePlan)

namespace MergePlan

/-- The reports that are merged. -/
def reports : MergePlan → List Report
  | single report => [report]
  | merge target other => target.reports ++ other.reports

/-- Merges what comes of the second part into what comes of the first. -/
def run : MergePlan → Except Failure Report
  | single report => .ok report
  | merge target other => do (← target.run).joined (← other.run)

theorem run_merge_eq_ok_iff {target other : MergePlan} {result : Report} :
    (merge target other).run = .ok result ↔ ∃ first second, target.run = .ok first ∧
      other.run = .ok second ∧ first.joined second = .ok result := by
  rw [run]
  cases target.run <;> cases other.run <;> simp [bind, Except.bind]

/-- The plan that merges reports one after another into what comes of a plan. -/
def inOrder (plan : MergePlan) (reports : List Report) : MergePlan :=
  reports.foldl (fun plan report ↦ plan.merge (.single report)) plan

theorem reports_inOrder (plan : MergePlan) (reports : List Report) :
    (plan.inOrder reports).reports = plan.reports ++ reports := by
  induction reports generalizing plan with
  | nil => exact (List.append_nil _).symm
  | cons report rest ih =>
    refine (ih (plan.merge (.single report))).trans ?_
    rw [MergePlan.reports, MergePlan.reports, List.append_assoc, List.singleton_append]

theorem run_inOrder (plan : MergePlan) (reports : List Report) :
    (plan.inOrder reports).run = plan.run.bind (reports.foldlM Report.joined) := by
  induction reports generalizing plan with
  | nil =>
    show plan.run = _
    cases plan.run <;> rfl
  | cons report rest ih =>
    refine (ih (plan.merge (.single report))).trans ?_
    rw [run, run]
    cases plan.run <;> rfl

/-- A plan succeeds exactly when any two of its reports are compatible, and it adds them up. -/
theorem run_spec (plan : MergePlan)
    (hreports : ∀ report ∈ plan.reports, report.Filed ∧ report.MasksCovered) :
    ((∃ result, plan.run = .ok result) ↔ plan.reports.Pairwise Report.Compatible) ∧
      ∀ result, plan.run = .ok result → Report.MergeOf plan.reports result := by
  induction plan with
  | single report =>
    refine ⟨by simp [run, reports], fun result hresult ↦ ?_⟩
    obtain rfl := Except.ok.inj hresult
    obtain ⟨hfiled, hcovered⟩ := hreports report (List.mem_singleton_self _)
    exact ⟨hfiled, hcovered, Report.total_single _⟩
  | merge target other ih ihOther =>
    obtain ⟨htarget, htargetSum⟩ := ih fun report hmem ↦
      hreports report (List.mem_append_left _ hmem)
    obtain ⟨hother, hotherSum⟩ := ihOther fun report hmem ↦
      hreports report (List.mem_append_right _ hmem)
    rw [reports, List.pairwise_append, ← htarget, ← hother]
    refine ⟨⟨?_, ?_⟩, fun result hresult ↦ ?_⟩
    · intro ⟨result, hresult⟩
      obtain ⟨first, second, hfirst, hsecond, hjoined⟩ := run_merge_eq_ok_iff.mp hresult
      have hpairs := (htargetSum first hfirst).exists_joined_iff (hotherSum second hsecond)
      exact ⟨⟨first, hfirst⟩, ⟨second, hsecond⟩, hpairs.mp ⟨result, hjoined⟩⟩
    · intro ⟨⟨first, hfirst⟩, ⟨second, hsecond⟩, hcompatible⟩
      have hpairs := (htargetSum first hfirst).exists_joined_iff (hotherSum second hsecond)
      obtain ⟨result, hjoined⟩ := hpairs.mpr hcompatible
      exact ⟨result, run_merge_eq_ok_iff.mpr ⟨first, second, hfirst, hsecond, hjoined⟩⟩
    · obtain ⟨first, second, hfirst, hsecond, hjoined⟩ := run_merge_eq_ok_iff.mp hresult
      exact (htargetSum first hfirst).joined (hotherSum second hsecond) hjoined

/-- The order and the grouping of a plan do not matter. -/
theorem run_perm {plan other : MergePlan}
    (hreports : ∀ report ∈ plan.reports, report.Filed ∧ report.MasksCovered)
    (hperm : plan.reports.Perm other.reports) :
    ((∃ result, plan.run = .ok result) ↔ plan.reports.Pairwise Report.Compatible) ∧
      ((∃ result, other.run = .ok result) ↔ plan.reports.Pairwise Report.Compatible) ∧
      ∀ first second, plan.run = .ok first → other.run = .ok second → first.SavesAlike second := by
  obtain ⟨hiff, hsum⟩ := run_spec plan hreports
  obtain ⟨hotherIff, hotherSum⟩ := run_spec other fun report hmem ↦
    hreports report (hperm.mem_iff.mpr hmem)
  refine ⟨hiff, ?_, fun first second hfirst hsecond ↦ ?_⟩
  · rw [hotherIff, hperm.pairwise_iff fun hcompatible ↦ hcompatible.symm]
  · have hmerge := hsum first hfirst
    have hotherMerge := hotherSum second hsecond
    exact hmerge.total.savesAlike hotherMerge.total hperm hmerge.filed hotherMerge.filed

end MergePlan

namespace Report

theorem compatible_empty (report : Report) : Compatible {} report := by
  intro name ours theirs hours
  simp [class?] at hours

theorem mergeAll_eq_run (reports : List Report) :
    mergeAll reports = ((MergePlan.single {}).inOrder reports).run :=
  ((MergePlan.single {}).run_inOrder reports).symm

/-- The plan that merges into an empty report puts that one before the others, with which it is
compatible. -/
theorem mergeAll_perm {reports others : List Report}
    (hreports : ∀ report ∈ reports, report.Filed ∧ report.MasksCovered)
    (hperm : reports.Perm others) :
    ((∃ result, mergeAll reports = .ok result) ↔ reports.Pairwise Compatible) ∧
      ((∃ result, mergeAll others = .ok result) ↔ reports.Pairwise Compatible) ∧
      ∀ first second, mergeAll reports = .ok first → mergeAll others = .ok second →
        first.SavesAlike second := by
  have hstart : ∀ report ∈ ((MergePlan.single {}).inOrder reports).reports,
      report.Filed ∧ report.MasksCovered := by
    rw [MergePlan.reports_inOrder]
    exact List.forall_mem_cons.mpr ⟨⟨filed_empty, masksCovered_empty⟩, hreports⟩
  have hplansPerm : ((MergePlan.single {}).inOrder reports).reports.Perm
      ((MergePlan.single {}).inOrder others).reports := by
    rw [MergePlan.reports_inOrder, MergePlan.reports_inOrder]
    exact hperm.append_left _
  have hpairs : ((MergePlan.single {}).inOrder reports).reports.Pairwise Compatible ↔
      reports.Pairwise Compatible := by
    rw [MergePlan.reports_inOrder]
    exact List.pairwise_cons.trans (and_iff_right fun report _ ↦ compatible_empty report)
  have hplans := MergePlan.run_perm hstart hplansPerm
  rwa [hpairs, ← mergeAll_eq_run, ← mergeAll_eq_run] at hplans

/-- Reports whose masks count nothing on lines without record can be merged in any order and any
grouping: a merge succeeds exactly when any two of them are compatible, and what comes of it is
saved as the same bytes. Two reports can be merged either way whatever their masks count. -/
theorem merge_order_independent :
    (∀ reports others : List Report,
      (∀ report ∈ reports, report.Reachable ∧ report.MasksCovered) → reports.Perm others →
      ((∃ result, mergeAll reports = .ok result) ↔ reports.Pairwise Compatible) ∧
        ((∃ result, mergeAll others = .ok result) ↔ reports.Pairwise Compatible) ∧
        ∀ first second, mergeAll reports = .ok first → mergeAll others = .ok second →
          first.SavesAlike second) ∧
    (∀ plan other : MergePlan,
      (∀ report ∈ plan.reports, report.Reachable ∧ report.MasksCovered) →
      plan.reports.Perm other.reports →
      ((∃ result, plan.run = .ok result) ↔ plan.reports.Pairwise Compatible) ∧
        ((∃ result, other.run = .ok result) ↔ plan.reports.Pairwise Compatible) ∧
        ∀ first second, plan.run = .ok first → other.run = .ok second →
          first.SavesAlike second) ∧
    ∀ report other : Report, report.Reachable → other.Reachable →
      ((report.merge other).2 = .ok () ↔ report.Compatible other) ∧
        ((other.merge report).2 = .ok () ↔ report.Compatible other) ∧
        ((report.merge other).2 = .ok () →
          (report.merge other).1.SavesAlike (other.merge report).1) := by
  refine ⟨fun reports others hreports hperm ↦ ?_, fun plan other hreports hperm ↦ ?_,
    fun report other hreport hother ↦ ?_⟩
  · exact mergeAll_perm (fun report hmem ↦ (hreports report hmem).imp_left Reachable.filed) hperm
  · exact MergePlan.run_perm (fun report hmem ↦ (hreports report hmem).imp_left Reachable.filed)
      hperm
  · have hmerge := merge_eq_ok_iff hreport.filed hother.filed
    refine ⟨hmerge, (merge_eq_ok_iff hother.filed hreport.filed).trans
      ⟨Compatible.symm, Compatible.symm⟩, fun hok ↦ ?_⟩
    exact savesAlike_merge_comm hreport.filed hother.filed (hmerge.mp hok)

/-- A mask on a line that all reports have, and a class that is taken over with its mask. -/
theorem merge_order_independent_of_masks :
    let sampled (name : String) := ClassOp.applyAll
      [.ensureLine 3 "m()V" [.addJump 0], .openMask 3, .hitMask 3] { name }
    let traced := ClassOp.applyAll
      [.ensureLine 3 "m()V" [.addJump 0, .hit, .hitJump 0 true], .ensureLine 4 "m()V" []]
      { name := "C" }
    let reports : List Report := [Report.insert {} (sampled "C"), Report.insert {} traced,
      Report.insert {} (sampled "D")]
    (∀ report ∈ reports, report.Reachable ∧ report.MasksCovered) ∧
      reports.Perm reports.reverse ∧
      ∃ first second, mergeAll reports = .ok first ∧ mergeAll reports.reverse = .ok second ∧
        first.SavesAlike second := by
  intro sampled traced reports
  have hsampled (name : String) :
      (Report.insert {} (sampled name)).Reachable ∧
        (Report.insert {} (sampled name)).MasksCovered := by
    have hstore : (sampled name).Reachable := .applyAll (.fresh name) (by simp)
    refine ⟨.insert .empty hstore, masksCovered_empty.insert ?_⟩
    exact (ClassStore.maskCovered_openMask _ 3).hitMask rfl
  have htraced : (Report.insert {} traced).Reachable ∧ (Report.insert {} traced).MasksCovered := by
    have hstore : traced.Reachable := .applyAll (.fresh "C") (by simp)
    refine ⟨.insert .empty hstore, masksCovered_empty.insert ?_⟩
    exact ClassStore.maskCovered_of_mask_eq_none rfl
  have hreports : ∀ report ∈ reports, report.Reachable ∧ report.MasksCovered := by
    simp only [reports, List.forall_mem_cons]
    exact ⟨hsampled "C", htraced, hsampled "D", by simp⟩
  have hperm : reports.Perm reports.reverse := reports.reverse_perm.symm
  obtain ⟨hiff, hreverse, hsaves⟩ :=
    merge_order_independent.1 reports reports.reverse hreports hperm
  have hok : ∃ result, mergeAll reports = .ok result := by
    have hrun : (mergeAll reports).isOk = true := by decide +kernel
    rcases hresult : mergeAll reports with _ | result
    · rw [hresult] at hrun
      cases hrun
    · exact ⟨result, rfl⟩
  obtain ⟨first, hfirst⟩ := hok
  obtain ⟨second, hsecond⟩ := hreverse.mpr (hiff.mp ⟨first, hfirst⟩)
  exact ⟨hreports, hperm, first, second, hfirst, hsecond, hsaves first second hfirst hsecond⟩

end Report

end JvmCoverage
