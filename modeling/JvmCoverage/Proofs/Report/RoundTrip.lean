import JvmCoverage.Proofs.Class.RoundTrip
import JvmCoverage.Proofs.Report.Saving
/-!
# Reports are read back

What a save leaves in a sink without limit is the encoded form of the header and of each class
(`Report.savedAs_iff`), and loading these bytes gives the classes back (`Report.recovers_fields`).
The main statement is `Report.load_save`: loading what was saved of a reachable report gives a
report with the same classes, and each of them is the `ClassStore.ReadBack` of the class it was.
-/

set_option autoImplicit false
set_option relaxedAutoImplicit false

namespace JvmCoverage

open Decoder

namespace Report

variable {report : Report}

/-- What a report must keep within to be read back. -/
structure Fits (report : Report) : Prop where
  classCount_lt : report.classCount < UInt32.size
  record : ∀ name store line record, report.class? name = some store →
    store.line? line = some record → record.Fits

/-! ### Reading -/

/-- A class is filed in the report that is being read when no class of its name was. -/
theorem fileClass_of_absent {loading : Report} {passed : List ClassStore} {store back : ClassStore}
    (hloading : ∀ name, Option.Rel ClassStore.ReadBack
      (passed.find? (·.name = name)) (loading.class? name))
    (hnew : ∀ other ∈ passed, other.name ≠ store.name) (hback : ClassStore.ReadBack store back) :
    ∃ filed, loading.fileClass back = .ok filed ∧
      ∀ name, Option.Rel ClassStore.ReadBack
        ((passed ++ [store]).find? (·.name = name)) (filed.class? name) := by
  have hnone : passed.find? (·.name = store.name) = none :=
    List.find?_eq_none.mpr fun other hother ↦ by simpa using hnew other hother
  have habsent : loading.class? back.name = none := by
    have hrel := hloading store.name
    rw [hnone] at hrel
    rw [hback.name_eq]
    generalize loading.class? store.name = found at hrel
    cases hrel
    rfl
  refine ⟨loading.insert back, fileClass_eq_ok_iff.mpr ⟨habsent, rfl⟩, fun name ↦ ?_⟩
  have hfound : (loading.insert back).class? name =
      if store.name = name then some back else loading.class? name := by
    rw [class?_insert, hback.name_eq]
  rw [hfound, List.find?_append]
  by_cases hname : store.name = name
  · rw [if_pos hname, ← hname, hnone, Option.none_or, List.find?_singleton,
      if_pos (decide_eq_true rfl)]
    exact .some hback
  · rw [if_neg hname, List.find?_singleton, if_neg (by simpa using hname), Option.or_none]
    exact hloading name

theorem reads_dictionary (hcount : report.classCount < UInt32.size) :
    Reads Dictionary.decode report.dictionary.fields report.dictionary := by
  rw [dictionary_eq]
  refine Dictionary.reads_fields Std.ExtTreeMap.nodup_keys ?_
  rwa [Std.ExtTreeMap.length_keys]

/-- The classes come back one by one. -/
theorem recovers_fields (hfiled : report.Filed) (hfits : report.Fits) :
    Recovers decode report.fields fun loaded ↦
      ∀ name, Option.Rel ClassStore.ReadBack (report.class? name) (loaded.class? name) := by
  have hcount := hfits.classCount_lt
  rw [fields, header]
  simp only [List.cons_append, List.append_assoc, List.nil_append]
  refine (reads_int magic).bind_cons_recovers ?_
  rw [if_neg (not_not.mpr rfl)]
  refine (reads_int formatVersion).bind_cons_recovers ?_
  rw [if_neg (not_not.mpr rfl)]
  refine ((reads_dictionary hcount).recovers rfl).bind ?_
  rintro _ rfl
  refine (reads_count hcount).bind_cons_recovers ?_
  simp only [← find?_stores hfiled]
  rw [← length_stores]
  refine recovers_iterate report.stores
    (fun passed (loading : Report) ↦ ∀ name, Option.Rel ClassStore.ReadBack
      (passed.find? (·.name = name)) (loading.class? name)) ?_ ?_
  · intro passed store rest loading hstores hloading
    have hfound := (mem_stores_iff hfiled).mp (show store ∈ report.stores by simp [hstores])
    have hnew (other : ClassStore) (hother : other ∈ passed) : other.name ≠ store.name := by
      have hdistinct := pairwise_stores hfiled
      rw [hstores] at hdistinct
      exact (List.pairwise_append.mp hdistinct).2.2 other hother store List.mem_cons_self
    have hindex := Dictionary.get?_intern_of_mem (size_dictionary_lt hcount)
      (mem_dictionary hfiled hfound)
    have hread := ClassStore.recovers_foldMask (hfiled store.name store hfound).2.wellFormed
      (fun line record ↦ hfits.record store.name store line record hfound) hindex
    exact hread.bind_lift fun back hback ↦ fileClass_of_absent hloading hnew hback
  · intro name
    have hempty : ({} : Report).class? name = none := by simp [class?]
    rw [hempty]
    exact .none

/-- What is loaded after a save is the report with its counts folded and its branches renumbered. -/
theorem load_save (hreport : report.Reachable) (hfits : report.Fits)
    (hok : (report.save {}).outcome = .ok ()) :
    ∃ loaded, Report.load (report.save {}).sink.written.toList = .ok (loaded, []) ∧
      ∀ name, Option.Rel ClassStore.ReadBack (report.class? name) (loaded.class? name) := by
  have hwritten := (savedAs_iff hreport.filed).mp ⟨hok, rfl⟩
  obtain ⟨loaded, hload, hback⟩ := recovers_fields hreport.filed hfits [] hwritten
  rw [List.append_nil] at hload
  exact ⟨loaded, hload, hback⟩

/-- A dense class with a jump, a switch and a mask that was not folded. -/
theorem load_save_of_mask :
    let store := ClassOp.applyAll [.ensureLine 3 "m()V" [.addJump 0, .hitJump 0 true,
      .addSwitch 0 (.listed [1, 2]), .hitSwitch 0 2], .openMask 3, .hitMask 3, .densify]
      { name := "C" }
    let report := Report.insert {} store
    report.Reachable ∧ report.Fits ∧ (report.save {}).outcome = .ok () ∧
      ∃ loaded, Report.load (report.save {}).sink.written.toList = .ok (loaded, []) ∧
        ∀ name, Option.Rel ClassStore.ReadBack (report.class? name) (loaded.class? name) := by
  intro store report
  have hstore : store.Reachable := .applyAll (.fresh "C") (by simp)
  have hreport : report.Reachable := .insert .empty hstore
  have hrecords : store.records = [{
      line := 3
      signature := "m()V"
      jumps := #[{ id := 0, taken := ⟨1⟩ }]
      switches := #[{ id := 0, keys := .listed [1, 2], arms := ⟨#[{}, ⟨1⟩]⟩ }] }] := by
    decide +kernel
  have hcount : report.classCount = 1 := by decide +kernel
  have hfits : report.Fits := by
    refine ⟨by rw [hcount]; decide, fun name other line record hother hrecord ↦ ?_⟩
    have hsame : store = other := by
      rw [class?_insert] at hother
      split at hother
      · exact Option.some.inj hother
      · simp [class?] at hother
    subst hsame
    have hline := hstore.wellFormed.filed.line_eq hrecord
    have hfound := (LineTable.mem_records_iff hstore.wellFormed.filed record).mpr (hline ▸ hrecord)
    change record ∈ store.records at hfound
    rw [hrecords, List.mem_singleton] at hfound
    subst hfound
    exact ⟨by decide, by decide, by decide, by decide⟩
  have hok : (report.save {}).outcome = .ok () := by decide +kernel
  exact ⟨hreport, hfits, hok, load_save hreport hfits hok⟩

end Report

end JvmCoverage
