import JvmCoverage.Proofs.Line.Status
import JvmCoverage.Proofs.Line.Touch
/-!
# Coverage only grows

While a program runs and reports are merged, the counters of a line record are hit and added to. As
long as none of them passes the largest count, a counter that was hit stays hit, so the outcomes of
the line that are covered stay covered, there are always as many outcomes, and the status of the
line never falls. `LineRecord.KeepsCoverage` is what one change keeps
(`RecordOp.keepsCoverage_apply`) and so any number of them. After a merge an outcome is covered
when it was in one of the two records. Both are in `LineRecord.coverage_only_grows`.
-/

set_option autoImplicit false
set_option relaxedAutoImplicit false

namespace JvmCoverage

theorem Status.max_le {first second bound : Status} (hfirst : first ≤ bound)
    (hsecond : second ≤ bound) : max first second ≤ bound := by
  change (if first ≤ second then second else first) ≤ bound
  split_ifs
  · exact hsecond
  · exact hfirst

theorem Status.le_max_left (first second : Status) : first ≤ max first second := by
  cases first <;> cases second <;> decide

/-! ### Room in a counter -/

namespace Counter

variable {counter : Counter} {count : UInt32}

/-- The counter can take `count` more without passing the largest count. -/
def HasRoom (counter : Counter) (count : UInt32) : Prop :=
  counter.value.toNat + count.toNat < UInt32.size

instance : Decidable (counter.HasRoom count) :=
  inferInstanceAs (Decidable (counter.value.toNat + count.toNat < UInt32.size))

/-- If the counter was hit, so is the other one. -/
def KeptIn (counter later : Counter) : Prop := counter.isHit = true → later.isHit = true

theorem isHit_add_iff (hroom : counter.HasRoom count) :
    (counter.add count).isHit = true ↔ counter.isHit = true ∨ 0 < count := by
  rw [isHit_iff, isHit_iff, add, UInt32.lt_iff_toNat_lt, UInt32.lt_iff_toNat_lt,
    UInt32.lt_iff_toNat_lt, toNat_add_of_lt hroom, UInt32.toNat_zero]
  omega

theorem keptIn_add (hroom : counter.HasRoom count) : counter.KeptIn (counter.add count) :=
  fun hhit ↦ (isHit_add_iff hroom).mpr (.inl hhit)

theorem keptIn_hit (hroom : counter.HasRoom 1) : counter.KeptIn counter.hit := keptIn_add hroom

instance : Std.Refl KeptIn := ⟨fun _ ↦ id⟩

end Counter

/-! ### Rows of counters -/

section Rows

variable {α : Type} {relation : α → α → Prop} {row : Array α}

theorem forall₂_mapIdx {f : Nat → α → α}
    (hitem : ∀ slot item, row[slot]? = some item → relation item (f slot item)) :
    List.Forall₂ relation row.toList (row.mapIdx f).toList := by
  refine List.forall₂_iff_get.mpr ⟨by simp, fun slot hslot _ ↦ ?_⟩
  rw [Array.length_toList] at hslot
  simpa using hitem slot row[slot] (Array.getElem?_eq_getElem hslot)

theorem forall₂_modify [Std.Refl relation] {slot : Nat} {f : α → α}
    (hitem : ∀ item, row[slot]? = some item → relation item (f item)) :
    List.Forall₂ relation row.toList (row.modify slot f).toList := by
  refine List.forall₂_iff_get.mpr ⟨by simp, fun other hother _ ↦ ?_⟩
  rw [Array.length_toList] at hother
  simp only [List.get_eq_getElem, Array.getElem_toList, Array.getElem_modify]
  split_ifs with hslot
  · exact hitem _ (hslot ▸ Array.getElem?_eq_getElem hother)
  · exact Std.Refl.refl _

theorem countP_isHit_le {row later : List Counter} (hkept : List.Forall₂ Counter.KeptIn row later) :
    row.countP Counter.isHit ≤ later.countP Counter.isHit := by
  induction hkept with
  | nil => exact Nat.le_refl 0
  | @cons counter other _ _ hcounter _ ih =>
    rw [List.countP_cons, List.countP_cons]
    cases hhit : counter.isHit with
    | false => exact Nat.le_add_right_of_le ih
    | true =>
      rw [hcounter hhit]
      exact Nat.add_le_add_right ih 1

end Rows

namespace JumpRecord

variable {jump : JumpRecord}

def KeptIn (jump later : JumpRecord) : Prop :=
  List.Forall₂ Counter.KeptIn jump.outcomeRow later.outcomeRow

instance : Std.Refl KeptIn := ⟨fun _ ↦ List.forall₂_refl _⟩

theorem keptIn_hit {taken : Bool} (hroom : (if taken then jump.taken else jump.fallen).HasRoom 1) :
    jump.KeptIn (jump.hit taken) := by
  cases taken with
  | false => exact .cons (Std.Refl.refl _) (.cons (Counter.keptIn_hit hroom) .nil)
  | true => exact .cons (Counter.keptIn_hit hroom) (.cons (Std.Refl.refl _) .nil)

end JumpRecord

namespace SwitchRecord

variable {switch : SwitchRecord}

def KeptIn (switch later : SwitchRecord) : Prop :=
  List.Forall₂ Counter.KeptIn switch.outcomeRow later.outcomeRow

instance : Std.Refl KeptIn := ⟨fun _ ↦ List.forall₂_refl _⟩

theorem keptIn_hit {key : Int32}
    (hroom : ∀ counter, switch.counter? (switch.keys.arm? key) = some counter → counter.HasRoom 1) :
    switch.KeptIn (switch.hit key) := by
  unfold hit
  cases harm : switch.keys.arm? key with
  | none =>
    rw [harm] at hroom
    exact .cons (Counter.keptIn_hit (hroom _ rfl)) (List.forall₂_refl _)
  | some arm =>
    rw [harm] at hroom
    exact .cons (Std.Refl.refl _) (forall₂_modify fun counter hcounter ↦
      Counter.keptIn_hit (hroom counter hcounter))

end SwitchRecord

namespace LineRecord

variable {record later ours theirs : LineRecord}

theorem keptIn_outcomeRow
    (hjumps : List.Forall₂ JumpRecord.KeptIn record.jumps.toList later.jumps.toList)
    (hswitches : List.Forall₂ SwitchRecord.KeptIn record.switches.toList later.switches.toList) :
    List.Forall₂ Counter.KeptIn record.outcomeRow later.outcomeRow :=
  List.rel_append (List.rel_flatMap hjumps fun _ _ hrow ↦ hrow)
    (List.rel_flatMap hswitches fun _ _ hrow ↦ hrow)

/-! ### What a change keeps -/

/-- What is covered in `record` is not less in `later`. -/
structure KeepsCoverage (record later : LineRecord) : Prop where
  hits : record.hits.KeptIn later.hits
  covered_le : record.outcomeCounts.covered ≤ later.outcomeCounts.covered
  total_eq : later.outcomeCounts.total = record.outcomeCounts.total

theorem keepsCoverage_of_rows (hhits : record.hits.KeptIn later.hits)
    (hrows : List.Forall₂ Counter.KeptIn record.outcomeRow later.outcomeRow) :
    record.KeepsCoverage later where
  hits := hhits
  covered_le := by
    rw [covered_eq, covered_eq]
    exact countP_isHit_le hrows
  total_eq := by
    rw [LineRecord.total_eq, LineRecord.total_eq, hrows.length_eq]

namespace KeepsCoverage

theorem refl (record : LineRecord) : record.KeepsCoverage record := ⟨id, Nat.le_refl _, rfl⟩

theorem trans {last : LineRecord} (hfirst : record.KeepsCoverage later)
    (hsecond : later.KeepsCoverage last) : record.KeepsCoverage last where
  hits := hsecond.hits ∘ hfirst.hits
  covered_le := Nat.le_trans hfirst.covered_le hsecond.covered_le
  total_eq := hsecond.total_eq.trans hfirst.total_eq

/-- The status is a matter of the executions and of the two numbers. -/
theorem status_le (hkeeps : record.KeepsCoverage later) : record.status ≤ later.status := by
  have hcovered : record.status = .covered → later.status = .covered := by
    simp only [status_eq_covered_iff, ← Counter.isHit_iff]
    rintro ⟨hhit, hall⟩
    refine ⟨hkeeps.hits hhit, Nat.le_antisymm later.covered_le_total ?_⟩
    rw [hkeeps.total_eq, ← hall]
    exact hkeeps.covered_le
  have huncovered : later.status = .uncovered → record.status = .uncovered := by
    simp only [status_eq_uncovered_iff, ← Counter.isHit_eq_false_iff, ← Bool.not_eq_true]
    rintro ⟨hhit, hnone⟩
    exact ⟨fun hbefore ↦ hhit (hkeeps.hits hbefore), Nat.le_zero.mp (hnone ▸ hkeeps.covered_le)⟩
  revert hcovered huncovered
  cases record.status <;> cases later.status <;> decide

end KeepsCoverage

/-- No sum of two counters passes the largest count. -/
structure SumFits (ours theirs : LineRecord) : Prop where
  hits : ours.hits.HasRoom theirs.hits.value
  branches : ∀ counter,
    (ours.branchCount counter).toNat + (theirs.branchCount counter).toNat < UInt32.size

theorem keptIn_absorb_jump (hfits : ours.SumFits theirs) {slot : Nat} {jump : JumpRecord}
    (hjump : ours.jumps[slot]? = some jump) :
    jump.KeptIn (theirs.jumps[slot]?.elim jump jump.absorb) := by
  have htaken := hfits.branches (.taken slot)
  have hfallen := hfits.branches (.fallen slot)
  cases hother : theirs.jumps[slot]? with
  | none => exact List.forall₂_refl _
  | some other =>
    simp only [branchCount, hjump, hother, Option.elim_some] at htaken hfallen
    exact .cons (Counter.keptIn_add htaken) (.cons (Counter.keptIn_add hfallen) .nil)

theorem keptIn_absorb_switch (hfits : ours.SumFits theirs) {slot : Nat} {switch : SwitchRecord}
    (hswitch : ours.switches[slot]? = some switch) :
    switch.KeptIn (theirs.switches[slot]?.elim switch switch.absorb) := by
  have hunmatched := hfits.branches (.unmatched slot)
  cases hother : theirs.switches[slot]? with
  | none => exact List.forall₂_refl _
  | some other =>
    simp only [branchCount, hswitch, hother, Option.elim_some] at hunmatched
    refine .cons (Counter.keptIn_add hunmatched) (forall₂_mapIdx fun arm counter hcounter ↦ ?_)
    have harm := hfits.branches (.arm slot arm)
    simp only [branchCount, hswitch, hother, Option.elim_some, CounterBank.get, hcounter] at harm
    exact Counter.keptIn_add harm

theorem keepsCoverage_absorb (hfits : ours.SumFits theirs) :
    ours.KeepsCoverage (ours.absorb theirs) :=
  keepsCoverage_of_rows (Counter.keptIn_add hfits.hits)
    (keptIn_outcomeRow (forall₂_mapIdx fun _ _ ↦ keptIn_absorb_jump hfits)
      (forall₂_mapIdx fun _ _ ↦ keptIn_absorb_switch hfits))

end LineRecord

namespace RecordOp

variable {record : LineRecord}

/-- The change counts, and neither declares nor drops a branch. -/
def Counts : RecordOp → Prop
  | hit | hitJump _ _ | hitSwitch _ _ | addHits _ | merge _ => True
  | addJump _ | addSwitch _ _ | dropLastJump => False

/-- No counter passes the largest count when the record is changed. -/
def Fits : RecordOp → LineRecord → Prop
  | hit, record => record.hits.HasRoom 1
  | hitJump id taken, record => ∀ jump, record.jump? id = some jump →
    (if taken then jump.taken else jump.fallen).HasRoom 1
  | hitSwitch id key, record => ∀ switch, record.switch? id = some switch →
    ∀ counter, switch.counter? (switch.keys.arm? key) = some counter → counter.HasRoom 1
  | addHits count, record => record.hits.HasRoom count
  | merge theirs, record => LineRecord.shapeFault? record theirs = none → record.SumFits theirs
  | _, _ => True

/-- The changes only count, and no counter passes the largest count on the way. -/
def CountWithin : List RecordOp → LineRecord → Prop
  | [], _ => True
  | edit :: rest, record => edit.Counts ∧ edit.Fits record ∧ CountWithin rest (edit.apply record)

theorem keepsCoverage_apply {edit : RecordOp} (hcounts : edit.Counts) (hfits : edit.Fits record) :
    record.KeepsCoverage (edit.apply record) := by
  have hrow : List.Forall₂ Counter.KeptIn record.outcomeRow record.outcomeRow :=
    List.forall₂_refl _
  cases edit with
  | hit => exact LineRecord.keepsCoverage_of_rows (Counter.keptIn_hit hfits) hrow
  | hitJump id taken =>
    simp only [apply, LineRecord.hitJump]
    split
    · next slot hslot =>
      refine LineRecord.keepsCoverage_of_rows (Std.Refl.refl _) (LineRecord.keptIn_outcomeRow
        (forall₂_modify fun jump hjump ↦ ?_) (List.forall₂_refl _))
      exact JumpRecord.keptIn_hit (hfits jump (by rw [LineRecord.jump?, hslot]; exact hjump))
    · exact .refl record
  | hitSwitch id key =>
    simp only [apply, LineRecord.hitSwitch]
    split
    · next slot hslot =>
      refine LineRecord.keepsCoverage_of_rows (Std.Refl.refl _) (LineRecord.keptIn_outcomeRow
        (List.forall₂_refl _) (forall₂_modify fun switch hswitch ↦ ?_))
      exact SwitchRecord.keptIn_hit
        (hfits switch (by rw [LineRecord.switch?, hslot]; exact hswitch))
    · exact .refl record
  | addHits count => exact LineRecord.keepsCoverage_of_rows (Counter.keptIn_add hfits) hrow
  | addJump id => cases hcounts
  | addSwitch id keys => cases hcounts
  | dropLastJump => cases hcounts
  | merge theirs =>
    simp only [apply, LineRecord.merge]
    split
    · exact .refl record
    · next hshape => exact LineRecord.keepsCoverage_absorb (hfits hshape)

theorem keepsCoverage_applyAll {edits : List RecordOp} (hcount : CountWithin edits record) :
    record.KeepsCoverage (applyAll edits record) := by
  induction edits generalizing record with
  | nil => exact .refl record
  | cons edit rest ih =>
    obtain ⟨hcounts, hfits, hrest⟩ := hcount
    exact (keepsCoverage_apply hcounts hfits).trans (ih hrest)

theorem applyAll_append (first second : List RecordOp) (record : LineRecord) :
    applyAll (first ++ second) record = applyAll second (applyAll first record) :=
  List.foldl_append

theorem CountWithin.of_append {first second : List RecordOp}
    (hcount : CountWithin (first ++ second) record) :
    CountWithin second (applyAll first record) := by
  induction first generalizing record with
  | nil => exact hcount
  | cons edit rest ih => exact ih hcount.2.2

end RecordOp

/-! ### Merging -/

namespace LineRecord

variable {ours theirs : LineRecord}

/-- The records have the same branches, whatever their lines and owners. -/
def SameBranches (ours theirs : LineRecord) : Prop :=
  ours.shape.jumpIds = theirs.shape.jumpIds ∧ ours.shape.switches = theirs.shape.switches

instance : Decidable (ours.SameBranches theirs) :=
  inferInstanceAs (Decidable
    (ours.shape.jumpIds = theirs.shape.jumpIds ∧ ours.shape.switches = theirs.shape.switches))

theorem absorb_comm (hline : ours.line = theirs.line) (hshape : ours.shape = theirs.shape)
    (hours : ours.Sized) (htheirs : theirs.Sized) : ours.absorb theirs = theirs.absorb ours := by
  refine eq_of_counts hline ?_ (sized_absorb hours theirs) (sized_absorb htheirs ours)
    (UInt32.add_comm _ _) fun counter ↦ ?_
  · rw [shape_absorb, shape_absorb, hshape]
  · rw [branchCount_absorb hshape hours htheirs, branchCount_absorb hshape.symm htheirs hours,
      UInt32.add_comm]

theorem SumFits.symm (hfits : ours.SumFits theirs) : theirs.SumFits ours where
  hits := lt_of_eq_of_lt (Nat.add_comm _ _) hfits.hits
  branches counter := lt_of_eq_of_lt (Nat.add_comm _ _) (hfits.branches counter)

theorem keepsCoverage_absorb_right (hline : ours.line = theirs.line)
    (hshape : ours.shape = theirs.shape) (hours : ours.Sized) (htheirs : theirs.Sized)
    (hfits : ours.SumFits theirs) : theirs.KeepsCoverage (ours.absorb theirs) := by
  rw [absorb_comm hline hshape hours htheirs]
  exact keepsCoverage_absorb hfits.symm

/-- A merge keeps what is covered in either record. Neither line nor owner matters to it, so the
other record may be taken to have those of the first. -/
theorem keepsCoverage_merge (hours : ours.Sized) (htheirs : theirs.Sized)
    (hsame : ours.SameBranches theirs) (hfits : ours.SumFits theirs) :
    ours.merge theirs = .ok (ours.absorb theirs) ∧ ours.KeepsCoverage (ours.absorb theirs) ∧
      theirs.KeepsCoverage (ours.absorb theirs) ∧ ∀ counter,
        (ours.absorb theirs).branchCount counter =
          ours.branchCount counter + theirs.branchCount counter := by
  let aligned : LineRecord := { theirs with line := ours.line, signature := ours.signature }
  have haligned : aligned.Sized := htheirs
  have hshape : ours.shape = aligned.shape := (LineShape.mk.injEq ..).mpr ⟨rfl, hsame⟩
  have hnone : shapeFault? ours aligned = none := shapeFault?_eq_none hshape
  have hright : aligned.KeepsCoverage (ours.absorb aligned) :=
    keepsCoverage_absorb_right rfl hshape hours haligned ⟨hfits.hits, hfits.branches⟩
  have hcounts := branchCount_absorb hshape hours haligned
  exact ⟨merge_eq_ok_iff.mpr ⟨hnone, rfl⟩, keepsCoverage_absorb hfits,
    ⟨hright.hits, hright.covered_le, hright.total_eq⟩, hcounts⟩

/-- While a record is counted and merged into, its status and the number of its covered outcomes do
not fall from any point to a later one, and the number of its outcomes stays. A merge of two records
with the same branches succeeds, its status is at least that of either record, and an outcome is
covered after it exactly when it was in one of them. -/
theorem coverage_only_grows :
    (∀ (record : LineRecord) (before after : List RecordOp),
      RecordOp.CountWithin (before ++ after) record →
        let earlier := RecordOp.applyAll before record
        let later := RecordOp.applyAll (before ++ after) record
        earlier.status ≤ later.status ∧
          earlier.outcomeCounts.covered ≤ later.outcomeCounts.covered ∧
          later.outcomeCounts.total = earlier.outcomeCounts.total) ∧
      ∀ ours theirs : LineRecord, ours.Reachable → theirs.Reachable → ours.SameBranches theirs →
        ours.SumFits theirs → ∃ merged, ours.merge theirs = .ok merged ∧
          max ours.status theirs.status ≤ merged.status ∧
          ∀ counter, 0 < merged.branchCount counter ↔
            0 < ours.branchCount counter ∨ 0 < theirs.branchCount counter := by
  refine ⟨fun record before after hcount ↦ ?_, fun ours theirs hours htheirs hsame hfits ↦ ?_⟩
  · have hkeeps := RecordOp.keepsCoverage_applyAll hcount.of_append
    rw [← RecordOp.applyAll_append] at hkeeps
    exact ⟨hkeeps.status_le, hkeeps.covered_le, hkeeps.total_eq⟩
  · obtain ⟨hmerge, hleft, hright, hcounts⟩ :=
      keepsCoverage_merge hours.sized htheirs.sized hsame hfits
    refine ⟨_, hmerge, Status.max_le hleft.status_le hright.status_le, fun counter ↦ ?_⟩
    have hroom : Counter.HasRoom ⟨ours.branchCount counter⟩ (theirs.branchCount counter) :=
      hfits.branches counter
    have hhit := Counter.isHit_add_iff hroom
    rw [Counter.isHit_iff, Counter.isHit_iff] at hhit
    rw [hcounts]
    exact hhit

/-- One record took the jump and the other fell through, so both outcomes are covered in the merged
record. -/
theorem coverage_only_grows_of_opposite_jumps :
    let declared := RecordOp.applyAll [.addJump 0] { line := 3, signature := "m()V" }
    let ours := RecordOp.applyAll [.hit, .hitJump 0 true] declared
    let theirs := RecordOp.applyAll [.hitJump 0 false] declared
    declared.status ≤ ours.status ∧ ∃ merged, ours.merge theirs = .ok merged ∧
      Status.partly ≤ merged.status ∧
      0 < merged.branchCount (.taken 0) ∧ 0 < merged.branchCount (.fallen 0) := by
  intro declared ours theirs
  have hdeclared : declared.Reachable := (Reachable.fresh 3 "m()V").applyAll _
  have hours : ours.hits = ⟨1⟩ ∧ ours.jumps = #[⟨0, ⟨1⟩, ⟨0⟩⟩] ∧ ours.switches = #[] := by
    decide +kernel
  have htheirs : theirs.hits = ⟨0⟩ ∧ theirs.jumps = #[⟨0, ⟨0⟩, ⟨1⟩⟩] ∧ theirs.switches = #[] := by
    decide +kernel
  have hjump : declared.hit.jump? 0 = some ⟨0, ⟨0⟩, ⟨0⟩⟩ := by decide +kernel
  have hcount : RecordOp.CountWithin ([] ++ [.hit, .hitJump 0 true]) declared := by
    have hroom : declared.hits.HasRoom 1 := by decide +kernel
    refine ⟨trivial, hroom, trivial, fun jump hother ↦ ?_, trivial⟩
    obtain rfl : _ = jump := Option.some.inj (hjump.symm.trans hother)
    decide
  have hfits : ours.SumFits theirs := by
    refine ⟨by decide +kernel, fun counter ↦ ?_⟩
    rcases counter with slot | slot | slot | ⟨slot, arm⟩ <;> rcases slot with _ | slot <;>
      simp [branchCount, hours, htheirs, UInt32.size]
  obtain ⟨hgrows, hmerges⟩ := coverage_only_grows
  obtain ⟨merged, hmerge, hstatus, hcovered⟩ := hmerges ours theirs
    (hdeclared.applyAll _) (hdeclared.applyAll _) (by decide +kernel) hfits
  have hpartly : ours.status = .partly := by decide +kernel
  refine ⟨(hgrows declared [] _ hcount).1, merged, hmerge, ?_, (hcovered _).mpr (.inl ?_),
    (hcovered _).mpr (.inr ?_)⟩
  · exact Nat.le_trans (hpartly ▸ Status.le_max_left ours.status theirs.status) hstatus
  · simp [branchCount, hours]
  · simp [branchCount, htheirs]

end LineRecord

end JvmCoverage
