import JvmCoverage.Instrumentation.Class
import JvmCoverage.Proofs.Class.WellFormed
import Mathlib.Tactic.SplitIfs
/-!
# Instrumentation operates on class stores

What a `MethodPass` does to its store is made of operations on class stores, so an instrumented
store is as reachable as the store before it (`ClassPass.reachable_instrument`). Beside it stand the
equations that say which record is left at each line by what the pass declares and retracts, and
`MethodPass.declared_record`, which says all that recording an instruction can do.
-/

set_option autoImplicit false
set_option relaxedAutoImplicit false

namespace JvmCoverage

theorem LineTable.modify_id (table : LineTable) (line : UInt32) :
    table.modify line (fun record ↦ record) = table := by
  rcases table with lines | slots
  · refine congrArg sparse (Std.ExtTreeMap.ext_getElem? fun other ↦ ?_)
    rw [Std.ExtTreeMap.getElem?_modify]
    split_ifs with hline
    · rw [Option.map_id', Std.compare_eq_iff_eq.mp hline]
    · rfl
  · refine congrArg dense (Array.ext_getElem? fun slot ↦ ?_)
    rw [Array.getElem?_modify]
    split_ifs with hslot
    · simp
    · rfl

namespace ClassStore

variable {store : ClassStore}

/-! ### The record of each line -/

theorem modifyLine_id (store : ClassStore) (line : UInt32) :
    store.modifyLine line (fun record ↦ record) = store := by
  rw [modifyLine, LineTable.modify_id]

theorem line?_removeLine (hstore : store.WellFormed) (line other : UInt32) :
    (store.removeLine line).line? other = if other = line then none else store.line? other := by
  rw [removeLine, line?_restructureLine hstore, Option.bind_fun_none]

theorem line?_dropLastJump (hstore : store.WellFormed) (line other : UInt32) :
    (store.dropLastJump line).line? other =
      if other = line then (store.line? other).map LineRecord.dropLastJump
      else store.line? other :=
  line?_restructureLine_some hstore line LineRecord.dropLastJump other

/-- A jump gets the number of jumps that its line has as id. -/
theorem line?_declareJump (hstore : store.WellFormed) (line other : UInt32) :
    (store.declareJump line).line? other =
      if other = line then
        (store.line? other).map fun record ↦ record.addJump (UInt32.ofNat record.jumps.size)
      else store.line? other := by
  unfold declareJump
  cases hfound : store.line? line with
  | none =>
    split_ifs with hother
    · simp [hother, hfound]
    · rfl
  | some record =>
    show (store.addJump line _).line? other = _
    rw [addJump, line?_restructureLine_some hstore]
    split_ifs with hother
    · simp [hother, hfound]
    · rfl

/-- A switch gets the number of switches that its line has as id. -/
theorem line?_declareSwitch (hstore : store.WellFormed) (line : UInt32) (keys : CaseKeys)
    (other : UInt32) :
    (store.declareSwitch line keys).line? other =
      if other = line then
        (store.line? other).map fun record ↦
          record.addSwitch (UInt32.ofNat record.switches.size) keys
      else store.line? other := by
  unfold declareSwitch
  cases hfound : store.line? line with
  | none =>
    split_ifs with hother
    · simp [hother, hfound]
    · rfl
  | some record =>
    show (store.addSwitch line _ keys).line? other = _
    rw [addSwitch, line?_restructureLine_some hstore]
    split_ifs with hother
    · simp [hother, hfound]
    · rfl

/-! ### Reachable stores -/

/-- An operation that merges nothing. -/
theorem Reachable.apply (hstore : store.Reachable) (op : ClassOp)
    (hop : ∀ theirs, op ≠ .merge theirs) : (op.apply store).Reachable :=
  hstore.operated op fun theirs heq ↦ absurd heq (hop theirs)

theorem Reachable.ensureLine (hstore : store.Reachable) (line : UInt32) (signature : String) :
    (store.ensureLine line signature).Reachable := by
  have hensured := hstore.apply (.ensureLine line signature []) (by simp)
  change ((store.ensureLine line signature).modifyLine line fun record ↦ record).Reachable
    at hensured
  rwa [modifyLine_id] at hensured

theorem Reachable.retract (hstore : store.Reachable) (call : Retraction) :
    (store.retract call).Reachable := by
  rcases call with line | line
  · exact hstore.apply (.removeLine line) (by simp)
  · exact hstore.apply (.dropLastJump line) (by simp)

theorem Reachable.retractAll (hstore : store.Reachable) (calls : List Retraction) :
    (store.retractAll calls).Reachable := by
  induction calls generalizing store with
  | nil => exact hstore
  | cons call rest ih => exact ih (hstore.retract call)

theorem Reachable.declareJump (hstore : store.Reachable) (line : UInt32) :
    (store.declareJump line).Reachable := by
  unfold ClassStore.declareJump
  split
  · exact hstore.apply (.addJump line _) (by simp)
  · exact hstore

theorem Reachable.declareSwitch (hstore : store.Reachable) (line : UInt32) (keys : CaseKeys) :
    (store.declareSwitch line keys).Reachable := by
  unfold ClassStore.declareSwitch
  split
  · exact hstore.apply (.addSwitch line _ keys) (by simp)
  · exact hstore

/-! ### What an instruction declares -/

/-- `result` is `store` with at most one branch declared on the line that is open. -/
inductive Declared (store : ClassStore) (open? : Option UInt32) : ClassStore → Prop
  | nothing : Declared store open? store
  | jump {line : UInt32} (hopen : open? = some line) :
    Declared store open? (store.declareJump line)
  | switch {line : UInt32} (hopen : open? = some line) (keys : CaseKeys) :
    Declared store open? (store.declareSwitch line keys)

namespace Declared

variable {open? : Option UInt32} {result : ClassStore}

theorem reachable (hdeclared : Declared store open? result) (hstore : store.Reachable) :
    result.Reachable := by
  rcases hdeclared with _ | ⟨hopen⟩ | ⟨hopen, keys⟩
  · exact hstore
  · exact hstore.declareJump _
  · exact hstore.declareSwitch _ keys

/-- A declaration makes no record and removes none. -/
theorem containsLine_eq (hdeclared : Declared store open? result) (hstore : store.WellFormed)
    (line : UInt32) : result.containsLine line = store.containsLine line := by
  rcases hdeclared with _ | ⟨hopen⟩ | ⟨hopen, keys⟩
  · rfl
  · rw [ClassStore.containsLine_eq, ClassStore.containsLine_eq, line?_declareJump hstore]
    split_ifs <;> simp
  · rw [ClassStore.containsLine_eq, ClassStore.containsLine_eq, line?_declareSwitch hstore]
    split_ifs <;> simp

theorem line?_eq (hdeclared : Declared store open? result) (hstore : store.WellFormed)
    {line : UInt32} (hline : open? ≠ some line) : result.line? line = store.line? line := by
  rcases hdeclared with _ | ⟨hopen⟩ | ⟨hopen, keys⟩
  · rfl
  · rw [line?_declareJump hstore, if_neg]
    rintro rfl
    exact hline hopen
  · rw [line?_declareSwitch hstore, if_neg]
    rintro rfl
    exact hline hopen

end Declared

end ClassStore

/-! ### Passes -/

namespace MethodPass

/-- Recording an instruction changes the store only. -/
theorem record_eq (pass : MethodPass) (instruction : Instruction) :
    pass.record instruction = { pass with store := (pass.record instruction).store } := by
  have hdeclare (declareOn : ClassStore → UInt32 → ClassStore) :
      pass.declare declareOn = { pass with store := (pass.declare declareOn).store } := by
    unfold declare
    split
    · split_ifs <;> rfl
    · rfl
  unfold record
  split
  · split_ifs
    · exact hdeclare _
    · rfl
  · exact hdeclare _
  · exact hdeclare _
  · rfl

theorem declared_record (pass : MethodPass) (instruction : Instruction) :
    ClassStore.Declared pass.store pass.currentLine (pass.record instruction).store := by
  have hdeclare (declareOn : ClassStore → UInt32 → ClassStore)
      (hdeclared : ∀ line, pass.currentLine = some line →
        ClassStore.Declared pass.store pass.currentLine (declareOn pass.store line)) :
      ClassStore.Declared pass.store pass.currentLine (pass.declare declareOn).store := by
    unfold declare
    split
    · next line hopen =>
      split_ifs
      · exact hdeclared line hopen
      · exact .nothing
    · exact .nothing
  unfold record
  split
  · split_ifs
    · exact hdeclare _ fun _ hopen ↦ .jump hopen
    · exact .nothing
  · exact hdeclare _ fun _ hopen ↦ .switch hopen _
  · exact hdeclare _ fun _ hopen ↦ .switch hopen _
  · exact .nothing

theorem reachable_deliver {pass : MethodPass} (hstore : pass.store.Reachable) (signal : Signal) :
    (pass.deliver signal).store.Reachable :=
  hstore.retractAll _

theorem reachable_visit {pass : MethodPass} (hstore : pass.store.Reachable)
    (instruction : Instruction) : (pass.visit instruction).store.Reachable := by
  unfold visit
  split
  · exact (reachable_deliver hstore _).ensureLine _ _
  · exact reachable_deliver ((pass.declared_record instruction).reachable hstore) _

theorem reachable_visitAll {pass : MethodPass} (hstore : pass.store.Reachable)
    (instructions : List Instruction) : (pass.visitAll instructions).store.Reachable := by
  induction instructions generalizing pass with
  | nil => exact hstore
  | cons instruction rest ih => exact ih (reachable_visit hstore instruction)

end MethodPass

namespace ClassPass

variable {pass : ClassPass}

theorem reachable_instrument (hstore : pass.store.Reachable) (method : MethodInfo)
    (instructions : List Instruction) :
    (pass.instrument method instructions).1.store.Reachable :=
  MethodPass.reachable_deliver
    (@MethodPass.reachable_visitAll (pass.beginMethod method) hstore instructions) _

theorem reachable_finish (hstore : pass.store.Reachable) : pass.finish.Reachable := by
  unfold finish
  split
  · exact hstore.apply (.openMask pass.store.maxLine) (by simp)
  · exact hstore

end ClassPass

end JvmCoverage
