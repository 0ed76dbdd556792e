import JvmCoverage.Proofs.Report.Merge
import JvmCoverage.Proofs.Text.ByteOrder
import Mathlib.Data.String.Basic
/-!
# What a merge that fails leaves behind

A merge of reports goes over the classes of the other report by ascending name and stops at the
first class that cannot be merged (`Report.exists_of_mergeStores_error`). That class is left alone,
because the merge of two class stores changes nothing when it fails. So a failed merge cuts the
names in two: below the class that failed the result is the one of a merge that succeeds
(`Report.joined?`), from that class on it is the report as it was. The main statement is
`Report.merge_stops_at_first_failure`, with names compared by the bytes that they are written as.
-/

set_option autoImplicit false
set_option relaxedAutoImplicit false

namespace JvmCoverage.Report

variable {report other : Report}

/-- What a merge that gets as far as the class makes of it. A class that only one of the reports
has is its store there, mask included. -/
def joined? (report other : Report) (name : String) : Option ClassStore :=
  match report.class? name, other.class? name with
  | some ours, some theirs => some (ours.mergeInPlace theirs).1
  | some ours, none => some ours
  | none, theirs => theirs

theorem joined?_eq_merge (report other : Report) (name : String) :
    report.joined? other name =
      (report.class? name).merge (fun ours theirs ↦ (ours.mergeInPlace theirs).1)
        (other.class? name) := by
  rw [joined?]
  cases report.class? name <;> cases other.class? name <;> rfl

/-- Stores come by ascending name. -/
theorem pairwise_lt_stores (hfiled : report.Filed) :
    report.stores.Pairwise fun first second ↦ first.name < second.name := by
  refine List.pairwise_map.mpr (Std.ExtTreeMap.ordered_keys_toList.imp_of_mem ?_)
  intro first second hfirst hsecond hlt
  rw [(hfiled _ _ (Std.ExtTreeMap.mem_toList_iff_getElem?_eq_some.mp hfirst)).1,
    (hfiled _ _ (Std.ExtTreeMap.mem_toList_iff_getElem?_eq_some.mp hsecond)).1]
  exact compare_lt_iff_lt.mp hlt

/-! ### Where a merge stops -/

/-- The stores before the one that fails are merged, those after it are not looked at. -/
theorem exists_of_mergeStores_error {stores : List ClassStore} {error : Failure}
    (herror : (report.mergeStores stores).2 = .error error) :
    ∃ before store after, stores = before ++ store :: after ∧
      (report.mergeStores before).2 = .ok () ∧
      ((report.mergeStores before).1.mergeClass store).2 = .error error ∧
      (report.mergeStores stores).1 = ((report.mergeStores before).1.mergeClass store).1 := by
  induction stores generalizing report with
  | nil => cases herror
  | cons store rest ih =>
    cases houtcome : (report.mergeClass store).2 with
    | error first =>
      rw [mergeStores_cons_of_error houtcome] at herror ⊢
      exact ⟨[], store, rest, rfl, rfl, houtcome.trans herror, rfl⟩
    | ok =>
      rw [mergeStores_cons_of_ok houtcome] at herror ⊢
      obtain ⟨before, failing, after, rfl, hok, hfailing, hstate⟩ := ih herror
      refine ⟨store :: before, failing, after, rfl, ?_⟩
      rw [mergeStores_cons_of_ok houtcome]
      exact ⟨hok, hfailing, hstate⟩

/-- Only a class that both reports have can fail, and then nothing changes. -/
theorem unchanged_of_mergeClass_error (hreport : report.Filed) {theirs : ClassStore}
    (htheirs : theirs.Reachable) {error : Failure}
    (herror : (report.mergeClass theirs).2 = .error error) :
    (∃ ours, report.class? theirs.name = some ours ∧
        (ours.mergeInPlace theirs).2 = .error error) ∧
      ∀ name, (report.mergeClass theirs).1.class? name = report.class? name := by
  have hclass := (mergeClass_eq hreport htheirs).2
  unfold mergeClass at herror
  cases hours : report.class? theirs.name with
  | none =>
    rw [hours] at herror
    cases herror
  | some ours =>
    rw [hours] at herror
    have hstore := (hreport theirs.name ours hours).2.wellFormed
    have hsame := ClassStore.mergeInPlace_unchanged hstore htheirs.wellFormed herror
    refine ⟨⟨ours, rfl, herror⟩, fun name ↦ ?_⟩
    rw [hclass]
    split_ifs with hname
    · rw [← hname, hours, Option.merge_some_some, hsame]
    · rfl

/-! ### Merging one report into another -/

theorem mergeInPlace_eq_ok_iff_sameShapes (hreport : report.Filed) (hother : other.Filed)
    {name : String} {ours theirs : ClassStore} (hours : report.class? name = some ours)
    (htheirs : other.class? name = some theirs) :
    (ours.mergeInPlace theirs).2 = .ok () ↔ ours.SameShapes theirs := by
  obtain ⟨hourName, hour⟩ := hreport name ours hours
  obtain ⟨htheirName, htheir⟩ := hother name theirs htheirs
  rw [ClassStore.mergeInPlace_eq_ok_iff hour.wellFormed htheir.wellFormed]
  exact and_iff_right (hourName.trans htheirName.symm)

/-- The names of the stores before one of them are the smaller ones. -/
theorem find?_before (hother : other.Filed) {before after : List ClassStore} {store : ClassStore}
    (hsplit : other.stores = before ++ store :: after) (name : String) :
    before.find? (·.name = name) = if name < store.name then other.class? name else none := by
  have hordered := pairwise_lt_stores hother
  rw [hsplit, List.pairwise_append, List.pairwise_cons] at hordered
  obtain ⟨-, ⟨hafter, -⟩, hbefore⟩ := hordered
  split_ifs with hlt
  · rw [← find?_stores hother, hsplit, List.find?_append]
    have hnone : (store :: after).find? (·.name = name) = none := by
      refine List.find?_eq_none.mpr fun later hlater ↦ ?_
      have hle : store.name ≤ later.name := by
        rcases List.mem_cons.mp hlater with rfl | hlater
        · exact Std.le_refl _
        · exact Std.le_of_lt (hafter later hlater)
      have hne : later.name ≠ name := fun heq ↦
        Std.not_lt.mpr (heq ▸ hle) hlt
      simpa using hne
    rw [hnone, Option.or_none]
  · refine List.find?_eq_none.mpr fun earlier hearlier ↦ ?_
    have hne : earlier.name ≠ name := fun heq ↦
      hlt (heq ▸ hbefore earlier hearlier store List.mem_cons_self)
    simpa using hne

/-- A merge that fails has met one class that cannot be merged, after all smaller ones. -/
theorem exists_of_merge_error (hreport : report.Filed) (hother : other.Filed) {error : Failure}
    (herror : (report.merge other).2 = .error error) :
    ∃ name ours theirs, report.class? name = some ours ∧ other.class? name = some theirs ∧
      (ours.mergeInPlace theirs).2 = .error error ∧
      (∀ smaller < name, ∀ our their, report.class? smaller = some our →
        other.class? smaller = some their → our.SameShapes their) ∧
      ∀ any, (report.merge other).1.class? any =
        if any < name then report.joined? other any else report.class? any := by
  obtain ⟨before, theirs, after, hsplit, hok, hfailed, hstate⟩ :=
    exists_of_mergeStores_error herror
  have htheirs : theirs ∈ other.stores := by simp [hsplit]
  have hbefore (store : ClassStore) (hstore : store ∈ before) : store.Reachable :=
    hother.mem_stores (hsplit ▸ List.mem_append_left _ hstore)
  have hdistinct : before.Pairwise fun first second ↦ first.name ≠ second.name :=
    (List.pairwise_append.mp (hsplit ▸ pairwise_stores hother)).1
  obtain ⟨hmergeable, hclass⟩ := mergeStores_eq hreport hbefore hdistinct
  obtain ⟨⟨ours, hours, hconflict⟩, hunchanged⟩ := unchanged_of_mergeClass_error
    (hreport.mergeStores hbefore) (hother.mem_stores htheirs) hfailed
  have hmerged (name : String) : (report.mergeStores before).1.class? name =
      if name < theirs.name then report.joined? other name else report.class? name := by
    rw [hclass hok, find?_before hother hsplit, joined?_eq_merge]
    split_ifs
    · rfl
    · rw [Option.merge_none_right]
  rw [hmerged, if_neg Std.lt_irrefl] at hours
  refine ⟨theirs.name, ours, theirs, hours, (mem_stores_iff hother).mp htheirs, hconflict, ?_, ?_⟩
  · intro smaller hsmaller our their hour htheir
    have hfound := find?_before hother hsplit smaller
    rw [if_pos hsmaller, htheir] at hfound
    have hname : their.name = smaller := by simpa using List.find?_some hfound
    exact hmergeable.mp hok their (List.mem_of_find?_eq_some hfound) our (hname ▸ hour)
  · intro name
    rw [merge, hstate, hunchanged, hmerged]

/-- A merge succeeds exactly when every class that both reports have can be merged. It fails with
the error of the smallest class that cannot, has done below that class all that a merge does, and
nothing from there on. -/
theorem merge_stops_at_first_failure (hreport : report.Reachable) (hother : other.Reachable) :
    ((report.merge other).2 = .ok () ↔ ∀ name ours theirs, report.class? name = some ours →
        other.class? name = some theirs → (ours.mergeInPlace theirs).2 = .ok ()) ∧
      ((report.merge other).2 = .ok () →
        ∀ name, (report.merge other).1.class? name = report.joined? other name) ∧
      ∀ error, (report.merge other).2 = .error error → ∃ name ours theirs,
        (report.class? name = some ours ∧ other.class? name = some theirs ∧
          (ours.mergeInPlace theirs).2 = .error error) ∧
        (∀ smaller, Utf8.encode smaller < Utf8.encode name →
          (∀ our their, report.class? smaller = some our →
            other.class? smaller = some their → (our.mergeInPlace their).2 = .ok ()) ∧
          (report.merge other).1.class? smaller = report.joined? other smaller) ∧
        ∀ larger, Utf8.encode name ≤ Utf8.encode larger →
          (report.merge other).1.class? larger = report.class? larger := by
  have hours := hreport.filed
  have htheirs := hother.filed
  refine ⟨?_, fun hok name ↦ ?_, fun error herror ↦ ?_⟩
  · rw [merge_eq_ok_iff hours htheirs]
    exact forall_congr' fun name ↦ forall_congr' fun our ↦ forall_congr' fun their ↦
      forall_congr' fun hour ↦ forall_congr' fun htheir ↦
        (mergeInPlace_eq_ok_iff_sameShapes hours htheirs hour htheir).symm
  · rw [class?_merge hours htheirs hok, joined?_eq_merge]
  · obtain ⟨name, our, their, hour, htheir, hconflict, hsmaller, hresult⟩ :=
      exists_of_merge_error hours htheirs herror
    refine ⟨name, our, their, ⟨hour, htheir, hconflict⟩, fun smaller hlt ↦ ⟨?_, ?_⟩,
      fun larger hle ↦ ?_⟩
    · intro our their hour htheir
      exact (mergeInPlace_eq_ok_iff_sameShapes hours htheirs hour htheir).mpr
        (hsmaller smaller (Utf8.encode_lt_iff.mp hlt) our their hour htheir)
    · rw [hresult, if_pos (Utf8.encode_lt_iff.mp hlt)]
    · have hnot : ¬ larger < name := fun hlt ↦ List.not_lt.mpr hle (Utf8.encode_lt_of_lt hlt)
      rw [hresult, if_neg hnot]

/-- Of three classes the first is merged and the second differs in shape, so that the third, which
is new, is not taken over. -/
theorem merge_stops_at_first_failure_of_branch :
    let plain (name : String) : ClassStore :=
      ClassOp.applyAll [.ensureLine 3 "m()V" [.hit]] { name }
    let branched (name : String) : ClassStore :=
      ClassOp.applyAll [.ensureLine 3 "m()V" [.addJump 0]] { name }
    let report := (Report.insert {} (plain "A")).insert (plain "B")
    let other := ((Report.insert {} (plain "A")).insert (branched "B")).insert (plain "C")
    report.Reachable ∧ other.Reachable ∧ (∃ error, (report.merge other).2 = .error error) ∧
      (report.merge other).1.class? "A" = report.joined? other "A" ∧
      (report.merge other).1.class? "B" = some (plain "B") ∧
      (report.merge other).1.class? "C" = none := by
  intro plain branched report other
  have hplain (name : String) : (plain name).Reachable := .applyAll (.fresh name) (by simp)
  have hbranched : (branched "B").Reachable := .applyAll (.fresh "B") (by simp)
  have hreport : report.Reachable := .insert (.insert .empty (hplain "A")) (hplain "B")
  have hother : other.Reachable :=
    .insert (.insert (.insert .empty (hplain "A")) hbranched) (hplain "C")
  have hfails : (report.merge other).2.isOk = false := by decide +kernel
  obtain ⟨error, herror⟩ : ∃ error, (report.merge other).2 = .error error := by
    cases houtcome : (report.merge other).2 with
    | error error => exact ⟨error, rfl⟩
    | ok => rw [houtcome] at hfails; cases hfails
  obtain ⟨name, ours, theirs, ⟨hours, htheirs, hconflict⟩, hsmaller, hlarger⟩ :=
    (merge_stops_at_first_failure hreport hother).2.2 error herror
  have hclass (other : String) : report.class? other = if "B" = other then some (plain "B")
      else if "A" = other then some (plain "A") else none := by
    simp only [report, class?_insert]
    rfl
  obtain rfl : "B" = name := by
    by_contra hne
    rw [hclass, if_neg hne] at hours
    split_ifs at hours with hname
    subst hname
    cases hours
    have hsame : other.class? "A" = some (plain "A") := by
      simp only [other, class?_insert]
      rfl
    obtain rfl := Option.some.inj (hsame.symm.trans htheirs)
    have hmerged : ((plain "A").mergeInPlace (plain "A")).2.isOk = true := by decide +kernel
    rw [hconflict] at hmerged
    cases hmerged
  exact ⟨hreport, hother, ⟨error, herror⟩, (hsmaller "A" (Utf8.encode_lt_of_lt (by decide))).2,
    (hlarger "B" (Std.le_refl _)).trans (hclass "B"),
    (hlarger "C" (Std.le_of_lt (Utf8.encode_lt_of_lt (by decide)))).trans (hclass "C")⟩

end JvmCoverage.Report
