import JvmCoverage.Proofs.Class.Operation
import JvmCoverage.Proofs.Field.Decoding
import JvmCoverage.Report.Layout
/-!
# Operations on reports

`Report.Reachable` says that a report was made by operations. Each class of such a report is filed
under its own name, and its store was made by operations too (`Report.Reachable.filed`).
-/

set_option autoImplicit false
set_option relaxedAutoImplicit false

namespace JvmCoverage

namespace Report

/-- The report was made by operations. -/
inductive Reachable : Report → Prop
  | empty : Reachable {}
  | loaded {bytes rest : List UInt8} {report : Report}
    (hload : Report.load bytes = .ok (report, rest)) : Reachable report
  | ensureClass {report : Report} (name : String) (hreport : Reachable report) :
    Reachable (report.ensureClass name)
  | insert {report : Report} {store : ClassStore} (hreport : Reachable report)
    (hstore : store.Reachable) : Reachable (report.insert store)
  | operated {report : Report} (name : String) (op : ClassOp) (hreport : Reachable report)
    (htheirs : ∀ theirs, op = .merge theirs → theirs.Reachable) :
    Reachable (report.modifyClass name op.apply)
  | merged {report other : Report} (hreport : Reachable report) (hother : Reachable other) :
    Reachable (report.merge other).1
  | saved {report : Report} (sink : Sink) (hreport : Reachable report) :
    Reachable (report.save sink).report

/-- Each store was made by operations and is filed under the name of its class. -/
def Filed (report : Report) : Prop :=
  ∀ name store, report.class? name = some store → store.name = name ∧ store.Reachable

variable {report : Report}

theorem filed_empty : Filed {} := by
  intro name store hstore
  simp [class?] at hstore

theorem class?_insert (report : Report) (store : ClassStore) (name : String) :
    (report.insert store).class? name =
      if store.name = name then some store else report.class? name := by
  simp only [class?, Report.insert, Std.ExtTreeMap.getElem?_insert, Std.compare_eq_iff_eq]

theorem Filed.insert (hreport : report.Filed) {name : String} {store : ClassStore}
    (hname : store.name = name) (hstore : store.Reachable) :
    Filed { classes := report.classes.insert name store } := by
  intro other found hfound
  simp only [class?, Std.ExtTreeMap.getElem?_insert, Std.compare_eq_iff_eq] at hfound
  by_cases heq : name = other
  · rw [if_pos heq] at hfound
    cases hfound
    exact ⟨hname.trans heq, hstore⟩
  · rw [if_neg heq] at hfound
    exact hreport other found hfound

theorem Filed.ensureClass (hreport : report.Filed) (name : String) :
    (report.ensureClass name).Filed := by
  intro other found hfound
  simp only [class?, Report.ensureClass, Std.ExtTreeMap.getElem?_alter, Std.compare_eq_iff_eq]
    at hfound
  by_cases heq : name = other
  · rw [if_pos heq] at hfound
    cases hfound
    subst heq
    cases hold : report.classes[name]? with
    | none => exact ⟨rfl, .fresh name⟩
    | some store => exact hreport name store hold
  · rw [if_neg heq] at hfound
    exact hreport other found hfound

theorem Filed.operated (hreport : report.Filed) (name : String) {op : ClassOp}
    (htheirs : ∀ theirs, op = .merge theirs → theirs.Reachable) :
    (report.modifyClass name op.apply).Filed := by
  intro other found hfound
  simp only [class?, modifyClass, Std.ExtTreeMap.getElem?_modify, Std.compare_eq_iff_eq] at hfound
  by_cases heq : name = other
  · rw [if_pos heq] at hfound
    subst heq
    obtain ⟨store, hold, rfl⟩ := Option.map_eq_some_iff.mp hfound
    obtain ⟨hname, hstore⟩ := hreport name store hold
    exact ⟨(op.name_apply store).trans hname, .operated op hstore htheirs⟩
  · rw [if_neg heq] at hfound
    exact hreport other found hfound

theorem Filed.mem_stores (hreport : report.Filed) {store : ClassStore}
    (hmem : store ∈ report.stores) : store.Reachable := by
  obtain ⟨⟨name, other⟩, hpair, rfl⟩ := List.mem_map.mp hmem
  exact (hreport name other (Std.ExtTreeMap.mem_toList_iff_getElem?_eq_some.mp hpair)).2

theorem Filed.mergeClass (hreport : report.Filed) {theirs : ClassStore}
    (htheirs : theirs.Reachable) : (report.mergeClass theirs).1.Filed := by
  unfold Report.mergeClass
  cases hours : report.class? theirs.name with
  | none => exact hreport.insert rfl htheirs
  | some ours =>
    obtain ⟨hname, hstore⟩ := hreport theirs.name ours hours
    refine hreport.insert ((ours.name_mergeInPlace theirs).trans hname)
      (.operated (.merge theirs) hstore ?_)
    rintro _ ⟨⟩
    exact htheirs

theorem mergeStores_cons_of_ok {store : ClassStore} {rest : List ClassStore}
    (hok : (report.mergeClass store).2 = .ok ()) :
    report.mergeStores (store :: rest) = (report.mergeClass store).1.mergeStores rest := by
  rcases hstep : report.mergeClass store with ⟨next, outcome⟩
  rw [hstep] at hok
  subst hok
  simp only [mergeStores, hstep]

theorem mergeStores_cons_of_error {store : ClassStore} {rest : List ClassStore} {error : Failure}
    (herror : (report.mergeClass store).2 = .error error) :
    report.mergeStores (store :: rest) = ((report.mergeClass store).1, .error error) := by
  rcases hstep : report.mergeClass store with ⟨next, outcome⟩
  rw [hstep] at herror
  subst herror
  simp only [mergeStores, hstep]

theorem Filed.mergeStores (hreport : report.Filed) {stores : List ClassStore}
    (hstores : ∀ store ∈ stores, store.Reachable) : (report.mergeStores stores).1.Filed := by
  induction stores generalizing report with
  | nil => exact hreport
  | cons store rest ih =>
    have hfirst := hreport.mergeClass (hstores store List.mem_cons_self)
    cases houtcome : (report.mergeClass store).2 with
    | ok =>
      rw [mergeStores_cons_of_ok houtcome]
      exact ih hfirst fun other hother ↦ hstores other (List.mem_cons_of_mem _ hother)
    | error error =>
      rw [mergeStores_cons_of_error houtcome]
      exact hfirst

theorem Filed.saveClasses (hreport : report.Filed) (dictionary : Dictionary) (sink : Sink)
    {classes : List (String × ClassStore)}
    (hclasses : ∀ pair ∈ classes, pair.2.name = pair.1 ∧ pair.2.Reachable) :
    (report.saveClasses dictionary sink classes).report.Filed := by
  induction classes generalizing report dictionary sink with
  | nil => exact hreport
  | cons pair rest ih =>
    obtain ⟨name, store⟩ := pair
    obtain ⟨hname, hstore⟩ := hclasses _ List.mem_cons_self
    have hsaved : (store.save dictionary sink).store.Reachable :=
      .operated (.save dictionary sink) hstore (by rintro _ ⟨⟩)
    have hnext := hreport.insert (store.name_foldMask.trans hname) hsaved
    rw [Report.saveClasses]
    split
    · exact ih hnext _ _ fun other hother ↦ hclasses other (List.mem_cons_of_mem _ hother)
    · exact hnext

theorem Filed.save (hreport : report.Filed) (sink : Sink) : (report.save sink).report.Filed := by
  unfold Report.save
  split
  · exact hreport.saveClasses _ _ fun pair hpair ↦
      hreport pair.1 pair.2 (Std.ExtTreeMap.mem_toList_iff_getElem?_eq_some.mp hpair)
  · exact hreport

theorem fileClass_eq_ok_iff {store : ClassStore} {filed : Report} :
    report.fileClass store = .ok filed ↔
      report.class? store.name = none ∧ report.insert store = filed := by
  unfold fileClass
  cases report.class? store.name <;> simp

theorem filed_decode : Decoder.Ensures decode Filed := by
  refine Decoder.ensures_bind (Decoder.ensures_true _) fun magicRead _ ↦ ?_
  split
  · exact Decoder.ensures_fail _ _
  · refine Decoder.ensures_bind (Decoder.ensures_true _) fun version _ ↦ ?_
    split
    · exact Decoder.ensures_fail _ _
    · refine Decoder.ensures_bind (Decoder.ensures_true _) fun dictionary _ ↦ ?_
      refine Decoder.ensures_bind (Decoder.ensures_true _) fun length _ ↦ ?_
      refine Decoder.ensures_iterate (fun _ report ↦ Filed report) ?_ length 0 filed_empty
      intro _ report hreport
      have hstore : Decoder.Ensures (ClassStore.decode dictionary) ClassStore.Reachable :=
        fun _ _ _ hdecode ↦ .loaded hdecode
      refine Decoder.ensures_bind hstore fun store hstore ↦ ?_
      refine Decoder.ensures_lift fun filed hfile ↦ ?_
      obtain ⟨-, rfl⟩ := fileClass_eq_ok_iff.mp hfile
      exact hreport.insert rfl hstore

theorem Reachable.filed (hreachable : report.Reachable) : report.Filed := by
  induction hreachable with
  | empty => exact filed_empty
  | loaded hload => exact filed_decode hload
  | ensureClass name _ hreport => exact hreport.ensureClass name
  | insert _ hstore hreport => exact hreport.insert rfl hstore
  | operated name op _ htheirs hreport => exact hreport.operated name htheirs
  | merged _ _ hreport hother => exact hreport.mergeStores fun _ ↦ hother.mem_stores
  | saved sink _ hreport => exact hreport.save sink

end Report

end JvmCoverage
