import JvmCoverage.Proofs.Class.WellFormed
/-!
# Method statuses

The status of a method is aggregated from the statuses of the lines that it owns when it is first
asked for, and remembered. `StatusTally` aggregates them line by line, and `Status.ofAll` is what
comes of it, in whatever order the lines are met (`StatusTally.verdict_eq`).

A store that remembers a verdict remembers it through every operation
(`ClassOp.verdicts_apply_of_some`), and `ClassStore.Unasked` says that a store was made without
asking for the status of a method. A query leaves nothing else behind: `ClassStore.forget` drops
what only queries and the interning of signatures write, and stores that agree after it agree after
every operation (`ClassOp.forget_apply`) and save the same bytes.
-/

set_option autoImplicit false
set_option relaxedAutoImplicit false

namespace JvmCoverage

/-! ### Aggregating statuses -/

namespace Status

/-- The status of a whole: uncovered when every part is, covered when every part is and there is
one, and partly covered otherwise. -/
def ofAll (parts : List Status) : Status :=
  if parts.all (· = uncovered) then uncovered
  else if parts.all (· = covered) then covered
  else partly

variable {parts others : List Status}

theorem ofAll_eq_uncovered_iff : ofAll parts = uncovered ↔ ∀ part ∈ parts, part = uncovered := by
  simp only [ofAll, List.all_eq_true, decide_eq_true_iff]
  split_ifs with hnone hfull
  · exact ⟨fun _ ↦ hnone, fun _ ↦ rfl⟩
  · exact ⟨nofun, fun hall ↦ absurd hall hnone⟩
  · exact ⟨nofun, fun hall ↦ absurd hall hnone⟩

theorem ofAll_eq_covered_iff :
    ofAll parts = covered ↔ parts ≠ [] ∧ ∀ part ∈ parts, part = covered := by
  simp only [ofAll, List.all_eq_true, decide_eq_true_iff]
  split_ifs with hnone hfull
  · refine ⟨nofun, fun ⟨hne, hfull⟩ ↦ ?_⟩
    obtain ⟨part, hpart⟩ := List.exists_mem_of_ne_nil parts hne
    cases (hnone part hpart).symm.trans (hfull part hpart)
  · refine ⟨fun _ ↦ ⟨?_, hfull⟩, fun _ ↦ rfl⟩
    rintro rfl
    exact hnone nofun
  · exact ⟨nofun, fun ⟨_, hall⟩ ↦ absurd hall hfull⟩

theorem ofAll_eq_of_perm (hperm : parts.Perm others) : ofAll parts = ofAll others := by
  rw [ofAll, ofAll, hperm.all_eq, hperm.all_eq]

end Status

namespace StatusTally

theorem foldl_note (tally : StatusTally) (parts : List Status) : parts.foldl note tally =
    { seen := tally.seen || !parts.isEmpty
      anyCovered := tally.anyCovered || parts.any (· ≠ .uncovered)
      allFull := tally.allFull && parts.all (· = .covered) } := by
  induction parts generalizing tally with
  | nil => simp
  | cons part rest ih =>
    rw [List.foldl_cons, ih]
    cases part <;> simp [note]

theorem verdict_foldl_note (parts : List Status) :
    (parts.foldl note {}).verdict = Status.ofAll parts := by
  have hany : parts.any (· ≠ .uncovered) = !parts.all (· = .uncovered) := by
    simp [List.not_all_eq_any_not]
  rw [foldl_note, hany, verdict, Status.ofAll]
  cases parts with
  | nil => rfl
  | cons part rest => simp

theorem verdict_eq {signature : String} {visited records : List LineRecord}
    (hperm : visited.Perm records) : (ofVisit signature visited).verdict =
      Status.ofAll ((records.filter (·.signature = signature)).map LineRecord.status) := by
  rw [← Status.ofAll_eq_of_perm ((hperm.filter _).map _), ← verdict_foldl_note, List.foldl_map]
  rfl

end StatusTally

/-! ### The lines of a method -/

namespace ClassStore

variable {store : ClassStore} {signature : String} {status : Status}

/-- The statuses of the lines that a method owns. -/
def statusesOf (store : ClassStore) (signature : String) : List Status :=
  (store.records.filter (·.signature = signature)).map LineRecord.status

/-- The store has the record, and the method owns it. -/
def Owns (store : ClassStore) (signature : String) (record : LineRecord) : Prop :=
  ∃ line, store.line? line = some record ∧ record.signature = signature

theorem mem_statusesOf_iff (hstore : store.WellFormed) : status ∈ store.statusesOf signature ↔
    ∃ record, store.Owns signature record ∧ record.status = status := by
  rw [statusesOf, List.mem_map]
  refine exists_congr fun record ↦ and_congr_left fun _ ↦ ?_
  rw [List.mem_filter, decide_eq_true_iff]
  change record ∈ store.table.records ∧ _ ↔ _
  rw [LineTable.mem_records_iff hstore.filed]
  constructor
  · rintro ⟨hfound, howner⟩
    exact ⟨record.line, hfound, howner⟩
  · rintro ⟨line, hfound, howner⟩
    have hline : record.line = line := hstore.filed.line_eq hfound
    exact ⟨hline ▸ hfound, howner⟩

theorem forall_statusesOf_iff (hstore : store.WellFormed) {property : Status → Prop} :
    (∀ status ∈ store.statusesOf signature, property status) ↔
      ∀ record, store.Owns signature record → property record.status := by
  simp only [mem_statusesOf_iff hstore, forall_exists_index, and_imp, forall_apply_eq_imp_iff₂]

theorem statusesOf_ne_nil_iff (hstore : store.WellFormed) :
    store.statusesOf signature ≠ [] ↔ ∃ record, store.Owns signature record := by
  constructor
  · intro hne
    obtain ⟨status, hstatus⟩ := List.exists_mem_of_ne_nil _ hne
    obtain ⟨record, howns, -⟩ := (mem_statusesOf_iff hstore).mp hstatus
    exact ⟨record, howns⟩
  · rintro ⟨record, howns⟩
    exact List.ne_nil_of_mem ((mem_statusesOf_iff hstore).mpr ⟨record, howns, rfl⟩)

/-! ### What a query remembers -/

theorem methodStatus_of_some (hverdict : store.verdicts[signature]? = some status) :
    store.methodStatus signature = (status, store) := by
  simp only [methodStatus, hverdict]

theorem methodStatus_of_none (hverdict : store.verdicts[signature]? = none) :
    (store.methodStatus signature).1 = Status.ofAll (store.statusesOf signature) := by
  simp only [methodStatus, hverdict]
  exact StatusTally.verdict_eq (.refl _)

theorem verdicts_methodStatus (store : ClassStore) (signature : String) :
    (store.methodStatus signature).2.verdicts[signature]? =
      some (store.methodStatus signature).1 := by
  cases hverdict : store.verdicts[signature]? with
  | some status =>
    rw [methodStatus_of_some hverdict]
    exact hverdict
  | none => simp only [methodStatus, hverdict, Std.ExtTreeMap.getElem?_insert_self]

theorem verdicts_methodStatus_of_ne {other : String} (hne : other ≠ signature) :
    (store.methodStatus other).2.verdicts[signature]? = store.verdicts[signature]? := by
  unfold methodStatus
  split
  · rfl
  · rw [Std.ExtTreeMap.getElem?_insert, if_neg fun heq ↦ hne (Std.compare_eq_iff_eq.mp heq)]

end ClassStore

namespace ClassOp

variable {store : ClassStore} {signature : String} {status : Status}

theorem verdicts_apply_of_ne {op : ClassOp} (hop : op ≠ .methodStatus signature) :
    (op.apply store).verdicts[signature]? = store.verdicts[signature]? := by
  by_cases hquery : ∃ other, op = .methodStatus other
  · obtain ⟨other, rfl⟩ := hquery
    exact ClassStore.verdicts_methodStatus_of_ne fun heq ↦ hop (congrArg methodStatus heq)
  · rw [ClassStore.steady_verdicts.apply fun other heq ↦ hquery ⟨other, heq⟩]

theorem verdicts_apply_of_some (hverdict : store.verdicts[signature]? = some status)
    (op : ClassOp) : (op.apply store).verdicts[signature]? = some status := by
  by_cases hop : op = .methodStatus signature
  · subst hop
    rw [apply, ClassStore.methodStatus_of_some hverdict]
    exact hverdict
  · rw [verdicts_apply_of_ne hop]
    exact hverdict

theorem verdicts_applyAll_of_some (hverdict : store.verdicts[signature]? = some status)
    (ops : List ClassOp) : (applyAll ops store).verdicts[signature]? = some status := by
  induction ops generalizing store with
  | nil => exact hverdict
  | cons op rest ih => exact ih (verdicts_apply_of_some hverdict op)

end ClassOp

/-! ### Stores that were not asked -/

namespace ClassStore

theorem verdicts_decodeGroup {store : ClassStore} (hstore : store.verdicts = ∅) :
    Decoder.Ensures store.decodeGroup (·.verdicts = ∅) := by
  refine Decoder.ensures_bind (Decoder.ensures_true _) fun signature _ ↦ ?_
  refine Decoder.ensures_bind (Decoder.ensures_true _) fun length _ ↦ ?_
  refine Decoder.ensures_iterate (fun _ (filing : ClassStore) ↦ filing.verdicts = ∅) ?_ length 0
    hstore
  intro round filing hfiling
  refine Decoder.ensures_bind (Decoder.ensures_true _) fun record _ ↦ ?_
  refine Decoder.ensures_lift fun filed hfiled ↦ ?_
  obtain ⟨-, rfl⟩ := fileRecord_eq_ok_iff.mp hfiled
  exact hfiling

theorem verdicts_decode (dictionary : Dictionary) :
    Decoder.Ensures (decode dictionary) (·.verdicts = ∅) := by
  refine Decoder.ensures_bind (Decoder.ensures_true _) fun index _ ↦ ?_
  split
  · exact Decoder.ensures_fail _ _
  · refine Decoder.ensures_bind (Decoder.ensures_true _) fun length _ ↦ ?_
    exact Decoder.ensures_iterate (fun _ (filing : ClassStore) ↦ filing.verdicts = ∅)
      (fun _ _ hfiling ↦ verdicts_decodeGroup hfiling) length 0 rfl

/-- The store was made by operations, and none of them asked for the status of the method. The
stores that were merged into it may have been asked. -/
inductive Unasked (signature : String) : ClassStore → Prop
  | fresh (name : String) : Unasked signature { name }
  | loaded {dictionary : Dictionary} {bytes rest : List UInt8} {store : ClassStore}
    (hdecode : ClassStore.decode dictionary bytes = .ok (store, rest)) : Unasked signature store
  | operated {store : ClassStore} (op : ClassOp) (hstore : Unasked signature store)
    (hop : op ≠ .methodStatus signature)
    (htheirs : ∀ theirs, op = .merge theirs → Reachable theirs) : Unasked signature (op.apply store)

namespace Unasked

variable {store : ClassStore} {signature : String}

theorem reachable (hstore : store.Unasked signature) : store.Reachable := by
  induction hstore with
  | fresh name => exact .fresh name
  | loaded hdecode => exact .loaded hdecode
  | operated op _ _ htheirs ih => exact .operated op ih htheirs

theorem verdict_eq_none (hstore : store.Unasked signature) : store.verdicts[signature]? = none := by
  induction hstore with
  | fresh name => exact Std.ExtTreeMap.getElem?_empty
  | loaded hdecode =>
    rw [verdicts_decode _ hdecode]
    exact Std.ExtTreeMap.getElem?_empty
  | operated op _ hop _ ih =>
    rw [ClassOp.verdicts_apply_of_ne hop]
    exact ih

theorem methodStatus_eq (hstore : store.Unasked signature) :
    (store.methodStatus signature).1 = Status.ofAll (store.statusesOf signature) :=
  methodStatus_of_none hstore.verdict_eq_none

theorem methodStatus_eq_uncovered_iff (hstore : store.Unasked signature) :
    (store.methodStatus signature).1 = .uncovered ↔
      ∀ record, store.Owns signature record → record.status = .uncovered := by
  rw [hstore.methodStatus_eq, Status.ofAll_eq_uncovered_iff,
    forall_statusesOf_iff hstore.reachable.wellFormed]

theorem methodStatus_eq_covered_iff (hstore : store.Unasked signature) :
    (store.methodStatus signature).1 = .covered ↔ (∃ record, store.Owns signature record) ∧
      ∀ record, store.Owns signature record → record.status = .covered := by
  rw [hstore.methodStatus_eq, Status.ofAll_eq_covered_iff,
    statusesOf_ne_nil_iff hstore.reachable.wellFormed,
    forall_statusesOf_iff hstore.reachable.wellFormed]

end Unasked

/-! ### What a query leaves behind -/

/-- The store without what only queries and the interning of signatures write. -/
def forget (store : ClassStore) : ClassStore := { store with signatures := ∅, verdicts := ∅ }

variable {first second : ClassStore}

theorem exists_of_forget_eq (hsame : first.forget = second.forget) :
    ∃ signatures verdicts, first = { second with signatures, verdicts } := by
  refine ⟨first.signatures, first.verdicts, ?_⟩
  simp only [forget, ClassStore.mk.injEq, true_and] at hsame
  obtain ⟨hname, htable, hmax, hmask⟩ := hsame
  rw [← hname, ← htable, ← hmax, ← hmask]

theorem content_eq_of_forget_eq (hsame : first.forget = second.forget) :
    (∀ line, first.line? line = second.line? line) ∧ first.isDense = second.isDense ∧
      first.maxLine = second.maxLine ∧ first.mask = second.mask := by
  obtain ⟨signatures, verdicts, rfl⟩ := exists_of_forget_eq hsame
  exact ⟨fun _ ↦ rfl, rfl, rfl, rfl⟩

theorem forget_methodStatus (store : ClassStore) (signature : String) :
    (store.methodStatus signature).2.forget = store.forget := by
  unfold methodStatus
  split <;> rfl

theorem forget_restructureLine (hsame : first.forget = second.forget) (line : UInt32)
    (f : LineRecord → Option LineRecord) :
    (first.restructureLine line f).forget = (second.restructureLine line f).forget := by
  obtain ⟨signatures, verdicts, rfl⟩ := exists_of_forget_eq hsame
  unfold restructureLine containsLine
  split <;> rfl

theorem forget_foldMask (hsame : first.forget = second.forget) :
    first.foldMask.forget = second.foldMask.forget := by
  obtain ⟨signatures, verdicts, rfl⟩ := exists_of_forget_eq hsame
  obtain ⟨name, table, maxLine, _, _, mask⟩ := second
  cases mask <;> rfl

theorem forget_densify (hsame : first.forget = second.forget) :
    first.densify.forget = second.densify.forget := by
  obtain ⟨signatures, verdicts, rfl⟩ := exists_of_forget_eq hsame
  obtain ⟨name, table, maxLine, _, _, mask⟩ := second
  cases table with
  | sparse lines =>
    unfold densify
    dsimp only
    split <;> rfl
  | dense slots => rfl

theorem forget_mergeRecord (hsame : first.forget = second.forget) (record : LineRecord) :
    (first.mergeRecord record).2 = (second.mergeRecord record).2 ∧
      (first.mergeRecord record).1.forget = (second.mergeRecord record).1.forget := by
  obtain ⟨signatures, verdicts, rfl⟩ := exists_of_forget_eq hsame
  unfold mergeRecord line?
  dsimp only
  split
  · exact ⟨rfl, rfl⟩
  · split <;> exact ⟨rfl, rfl⟩

theorem forget_mergeMask (hsame : first.forget = second.forget) (theirs : ClassStore) :
    (first.mergeMask theirs).forget = (second.mergeMask theirs).forget := by
  obtain ⟨signatures, verdicts, rfl⟩ := exists_of_forget_eq hsame
  unfold mergeMask
  split <;> rfl

theorem forget_mergeInPlace (hsame : first.forget = second.forget) (theirs : ClassStore) :
    (first.mergeInPlace theirs).1.forget = (second.mergeInPlace theirs).1.forget := by
  have hconflict : first.conflict? theirs = second.conflict? theirs := by
    obtain ⟨signatures, verdicts, rfl⟩ := exists_of_forget_eq hsame
    rfl
  exact (mergeInPlace_congr (fun first second ↦ first.forget = second.forget) hconflict rfl
    (fun record _ _ _ hstores ↦ forget_mergeRecord hstores record)
    (fun _ _ hstores ↦ forget_mergeMask hstores theirs) hsame).2

theorem save_congr (hsame : first.forget = second.forget) (dictionary : Dictionary) (sink : Sink) :
    (first.save dictionary sink).dictionary = (second.save dictionary sink).dictionary ∧
      (first.save dictionary sink).sink = (second.save dictionary sink).sink ∧
      (first.save dictionary sink).outcome = (second.save dictionary sink).outcome := by
  obtain ⟨signatures, verdicts, hfolded⟩ := exists_of_forget_eq (forget_foldMask hsame)
  unfold save
  rw [hfolded]
  exact ⟨rfl, rfl, rfl⟩

end ClassStore

namespace ClassOp

variable {first second : ClassStore}

theorem forget_apply (hsame : first.forget = second.forget) (op : ClassOp) :
    (op.apply first).forget = (op.apply second).forget := by
  cases op with
  | addJump line id => exact ClassStore.forget_restructureLine hsame line _
  | addSwitch line id keys => exact ClassStore.forget_restructureLine hsame line _
  | removeLine line => exact ClassStore.forget_restructureLine hsame line _
  | dropLastJump line => exact ClassStore.forget_restructureLine hsame line _
  | merge theirs => exact ClassStore.forget_mergeInPlace hsame theirs
  | methodStatus signature =>
    exact (first.forget_methodStatus signature).trans
      (hsame.trans (second.forget_methodStatus signature).symm)
  | save dictionary sink => exact ClassStore.forget_foldMask hsame
  | densify => exact ClassStore.forget_densify hsame
  | _ =>
    obtain ⟨signatures, verdicts, rfl⟩ := ClassStore.exists_of_forget_eq hsame
    rfl

theorem forget_applyAll (hsame : first.forget = second.forget) (ops : List ClassOp) :
    (applyAll ops first).forget = (applyAll ops second).forget := by
  induction ops generalizing first second with
  | nil => exact hsame
  | cons op rest ih => exact ih (forget_apply hsame op)

end ClassOp

namespace ClassStore

/-- A store that was not asked for the status of a method yet aggregates it from the lines that the
method owns, in whatever order they are visited, and gives the same answer after any further
operations. No query, early or late, is seen in the lines, the representation, the highest line or
the mask of the store or in what it saves, then or after any further operations. -/
theorem methodStatus_aggregated_once :
    (∀ (signature : String) (store : ClassStore), store.Unasked signature →
      let answer := (store.methodStatus signature).1
      let asked := (store.methodStatus signature).2
      (answer = .uncovered ↔
        ∀ record, store.Owns signature record → record.status = .uncovered) ∧
      (answer = .covered ↔ (∃ record, store.Owns signature record) ∧
        ∀ record, store.Owns signature record → record.status = .covered) ∧
      (answer = .partly ↔
        ¬ (∀ record, store.Owns signature record → record.status = .uncovered) ∧
        ¬ ((∃ record, store.Owns signature record) ∧
          ∀ record, store.Owns signature record → record.status = .covered)) ∧
      (∀ visited : List LineRecord, visited.Perm store.records →
        (StatusTally.ofVisit signature visited).verdict = answer) ∧
      ∀ later : List ClassOp,
        ((ClassOp.applyAll later asked).methodStatus signature).1 = answer) ∧
    ∀ (signature : String) (store : ClassStore) (later : List ClassOp),
      let asked := ClassOp.applyAll later (store.methodStatus signature).2
      let unasked := ClassOp.applyAll later store
      (∀ line, asked.line? line = unasked.line? line) ∧ asked.isDense = unasked.isDense ∧
        asked.maxLine = unasked.maxLine ∧ asked.mask = unasked.mask ∧
        ∀ (dictionary : Dictionary) (sink : Sink),
          (asked.save dictionary sink).dictionary = (unasked.save dictionary sink).dictionary ∧
          (asked.save dictionary sink).sink = (unasked.save dictionary sink).sink ∧
          (asked.save dictionary sink).outcome = (unasked.save dictionary sink).outcome := by
  refine ⟨fun signature store hstore ↦ ?_, fun signature store later ↦ ?_⟩
  · refine ⟨hstore.methodStatus_eq_uncovered_iff, hstore.methodStatus_eq_covered_iff, ?_,
      fun visited hperm ↦ ?_, fun later ↦ ?_⟩
    · rw [← hstore.methodStatus_eq_uncovered_iff, ← hstore.methodStatus_eq_covered_iff]
      cases (store.methodStatus signature).1 <;> decide
    · rw [StatusTally.verdict_eq hperm]
      exact hstore.methodStatus_eq.symm
    · rw [methodStatus_of_some
        (ClassOp.verdicts_applyAll_of_some (store.verdicts_methodStatus signature) later)]
  · have hsame := ClassOp.forget_applyAll (store.forget_methodStatus signature) later
    obtain ⟨hline, hdense, hmax, hmask⟩ := content_eq_of_forget_eq hsame
    exact ⟨hline, hdense, hmax, hmask, save_congr hsame⟩

/-- One line of the method was executed and one was not when its status is asked for; that the other
is executed later changes nothing. -/
theorem methodStatus_aggregated_once_of_late_hit :
    let store := ClassOp.applyAll [.ensureLine 3 "m()V" [.hit], .ensureLine 4 "m()V" [], .densify]
      { name := "C" }
    let asked := (store.methodStatus "m()V").2
    store.Unasked "m()V" ∧ (store.methodStatus "m()V").1 = .partly ∧
      ((ClassOp.applyAll [.hitLine 4] asked).methodStatus "m()V").1 = .partly := by
  intro store asked
  have hstore : store.Unasked "m()V" :=
    .operated .densify (.operated (.ensureLine 4 "m()V" []) (.operated (.ensureLine 3 "m()V" [.hit])
      (.fresh "C") nofun nofun) nofun nofun) nofun nofun
  have hanswer : (store.methodStatus "m()V").1 = .partly := by
    decide +kernel
  obtain ⟨-, -, -, -, hlater⟩ := methodStatus_aggregated_once.1 "m()V" store hstore
  exact ⟨hstore, hanswer, (hlater [.hitLine 4]).trans hanswer⟩

end ClassStore

end JvmCoverage
