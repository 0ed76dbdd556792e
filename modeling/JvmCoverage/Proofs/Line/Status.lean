import JvmCoverage.Proofs.Line.Sized
import Mathlib.Algebra.Ring.Nat
/-!
# The status of a line and its outcome counts

A line is classified by looking for a branch that was hit or one that was not, and its outcomes are
counted apart from that. Both go over the same counters. `LineRecord.outcomeRow` is the row of these
counters, two of each jump and one of each arm and default of a switch, and what either traversal
finds is read off the row: `covered` is the number of its counters that were hit and `total` its
length. So the status of a record is a matter of its executions and of these two numbers
(`LineRecord.status_iff_outcomeCounts`).
-/

set_option autoImplicit false
set_option relaxedAutoImplicit false

namespace JvmCoverage

theorem Counter.isHit_iff {counter : Counter} : counter.isHit = true ↔ 0 < counter.value :=
  decide_eq_true_iff

theorem Counter.isHit_eq_false_iff {counter : Counter} :
    counter.isHit = false ↔ counter.value = 0 := by
  rw [isHit, decide_eq_false_iff_not, UInt32.not_lt, UInt32.le_zero_iff]

theorem tally_eq_sum {α : Type} (count : α → Nat) (branches : Array α) :
    tally count branches = (branches.toList.map count).sum := by
  rw [tally, List.sum_eq_foldr, List.foldr_map]

namespace JumpRecord

def outcomeRow (jump : JumpRecord) : List Counter := [jump.taken, jump.fallen]

theorem anyHit_eq (jump : JumpRecord) : jump.anyHit = jump.outcomeRow.any Counter.isHit := by
  simp [anyHit, outcomeRow]

theorem allHit_eq (jump : JumpRecord) : jump.allHit = jump.outcomeRow.all Counter.isHit := by
  simp [allHit, outcomeRow]

theorem outcomesHit_eq (jump : JumpRecord) :
    jump.outcomesHit = jump.outcomeRow.countP Counter.isHit := by
  rw [outcomesHit, outcomeRow]
  cases htaken : jump.taken.isHit <;> cases hfallen : jump.fallen.isHit <;>
    simp [htaken, hfallen]

end JumpRecord

namespace SwitchRecord

def outcomeRow (switch : SwitchRecord) : List Counter :=
  switch.unmatched :: switch.arms.slots.toList

theorem anyHit_eq (switch : SwitchRecord) :
    switch.anyHit = switch.outcomeRow.any Counter.isHit := by
  simp [anyHit, outcomeRow, CounterBank.anyHit]

theorem allHit_eq (switch : SwitchRecord) :
    switch.allHit = switch.outcomeRow.all Counter.isHit := by
  simp [allHit, outcomeRow, CounterBank.allHit]

theorem outcomesHit_eq (switch : SwitchRecord) :
    switch.outcomesHit = switch.outcomeRow.countP Counter.isHit := by
  rw [outcomesHit, outcomeRow, List.countP_cons, CounterBank.hitCount, Array.countP_toList]
  cases switch.unmatched.isHit <;> simp [Nat.add_comm]

theorem outcomes_eq (switch : SwitchRecord) : switch.outcomes = switch.outcomeRow.length := by
  simp [outcomes, outcomeRow, CounterBank.size]

end SwitchRecord

namespace LineRecord

variable {record : LineRecord}

/-- The counters of all outcomes of a line, in the order of its branches. -/
def outcomeRow (record : LineRecord) : List Counter :=
  record.jumps.toList.flatMap JumpRecord.outcomeRow ++
    record.switches.toList.flatMap SwitchRecord.outcomeRow

theorem anyBranchHit_eq (record : LineRecord) :
    record.anyBranchHit = record.outcomeRow.any Counter.isHit := by
  simp only [anyBranchHit, outcomeRow, List.any_append, List.any_flatMap, Array.any_toList,
    JumpRecord.anyHit_eq, SwitchRecord.anyHit_eq]

theorem allBranchesHit_eq (record : LineRecord) :
    record.allBranchesHit = record.outcomeRow.all Counter.isHit := by
  simp only [allBranchesHit, outcomeRow, List.all_append, List.all_flatMap, Array.all_toList,
    JumpRecord.allHit_eq, SwitchRecord.allHit_eq]

theorem covered_eq (record : LineRecord) :
    record.outcomeCounts.covered = record.outcomeRow.countP Counter.isHit := by
  rw [outcomeCounts, tally_eq_sum, tally_eq_sum, funext JumpRecord.outcomesHit_eq,
    funext SwitchRecord.outcomesHit_eq, outcomeRow, List.countP_append, List.countP_flatMap,
    List.countP_flatMap]
  rfl

theorem total_eq (record : LineRecord) :
    record.outcomeCounts.total = record.outcomeRow.length := by
  have hswitches : tally SwitchRecord.outcomes record.switches =
      (record.switches.toList.map fun switch ↦ switch.outcomeRow.length).sum := by
    rw [tally_eq_sum, funext SwitchRecord.outcomes_eq]
  rw [outcomeCounts, hswitches, outcomeRow, List.length_append, List.length_flatMap,
    List.length_flatMap]
  simp [JumpRecord.outcomeRow, List.map_const', Nat.mul_comm]

theorem covered_le_total (record : LineRecord) :
    record.outcomeCounts.covered ≤ record.outcomeCounts.total := by
  rw [covered_eq, total_eq]
  exact List.countP_le_length

theorem allBranchesHit_iff :
    record.allBranchesHit = true ↔ record.outcomeCounts.covered = record.outcomeCounts.total := by
  rw [allBranchesHit_eq, covered_eq, total_eq, List.countP_eq_length, List.all_eq_true]

theorem anyBranchHit_eq_false_iff :
    record.anyBranchHit = false ↔ record.outcomeCounts.covered = 0 := by
  rw [anyBranchHit_eq, covered_eq, List.countP_eq_zero, List.any_eq_false]

theorem status_eq_covered_iff : record.status = .covered ↔
    0 < record.hits.value ∧ record.outcomeCounts.covered = record.outcomeCounts.total := by
  rw [← Counter.isHit_iff, ← allBranchesHit_iff, status]
  cases record.hits.isHit <;> cases record.allBranchesHit <;> cases record.anyBranchHit <;> decide

theorem status_eq_uncovered_iff : record.status = .uncovered ↔
    record.hits.value = 0 ∧ record.outcomeCounts.covered = 0 := by
  rw [← Counter.isHit_eq_false_iff, ← anyBranchHit_eq_false_iff, status]
  cases record.hits.isHit <;> cases record.allBranchesHit <;> cases record.anyBranchHit <;> decide

theorem total_eq_of_sized (hsized : record.Sized) : record.outcomeCounts.total =
    2 * record.jumps.size + (record.switches.toList.map (·.keys.arity + 1)).sum := by
  have hswitches : record.switches.toList.map SwitchRecord.outcomes =
      record.switches.toList.map (·.keys.arity + 1) :=
    List.map_congr_left fun switch hswitch ↦
      congrArg (· + 1) (hsized switch (Array.mem_toList_iff.mp hswitch))
  rw [← hswitches, ← tally_eq_sum]
  rfl

/-- The covered outcomes are those that were hit, of two for each jump and one for each arm and
default of a switch. A record is covered when it was executed and all its outcomes are, uncovered
when it was not executed and none of them is, and partly covered in between, also when it was not
executed but all its branches were taken. -/
theorem status_iff_outcomeCounts (hrecord : record.Reachable) :
    record.outcomeCounts.covered ≤ record.outcomeCounts.total ∧
      record.outcomeCounts.covered = record.outcomeRow.countP (0 < ·.value) ∧
      record.outcomeCounts.total =
        2 * record.jumps.size + (record.switches.toList.map (·.keys.arity + 1)).sum ∧
      (record.status = .covered ↔
        0 < record.hits.value ∧ record.outcomeCounts.covered = record.outcomeCounts.total) ∧
      (record.status = .uncovered ↔
        record.hits.value = 0 ∧ record.outcomeCounts.covered = 0) ∧
      (record.status = .partly ↔
        ¬ (0 < record.hits.value ∧ record.outcomeCounts.covered = record.outcomeCounts.total) ∧
        ¬ (record.hits.value = 0 ∧ record.outcomeCounts.covered = 0)) := by
  refine ⟨record.covered_le_total, record.covered_eq, total_eq_of_sized hrecord.sized,
    status_eq_covered_iff, status_eq_uncovered_iff, ?_⟩
  rw [← status_eq_covered_iff, ← status_eq_uncovered_iff]
  cases record.status <;> decide

/-- Both outcomes of the jump were taken, and the line was never executed. -/
theorem status_iff_outcomeCounts_of_no_execution :
    let record := RecordOp.applyAll [.addJump 0, .hitJump 0 true, .hitJump 0 false]
      { line := 3, signature := "m()V" }
    record.Reachable ∧ record.outcomeCounts.covered = 2 ∧ record.outcomeCounts.total = 2 ∧
      record.status = .partly := by
  intro record
  have hrecord : record.Reachable := (Reachable.fresh 3 "m()V").applyAll _
  have hhits : record.hits.value = 0 := by decide +kernel
  have hcovered : record.outcomeCounts.covered = 2 := by decide +kernel
  obtain ⟨-, -, htotal, -, -, hpartly⟩ := status_iff_outcomeCounts hrecord
  exact ⟨hrecord, hcovered, htotal.trans (by decide +kernel),
    hpartly.mpr (by simp [hhits, hcovered])⟩

end LineRecord

end JvmCoverage
