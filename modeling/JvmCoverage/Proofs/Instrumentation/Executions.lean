import JvmCoverage.Proofs.Class.Executions
import JvmCoverage.Proofs.Instrumentation.Frame
/-!
# Executions are not lost while a line lives

A `ClassStep` is what happens to a class in the course of a run: an operation on its store, or a
whole instrumentation pass. `ClassStep.executions_applyAll` keeps the books over any sequence of
steps that leave a line its record. What is on record for the line at the end, together with what
was thrown away, is what was on record at first and what the steps added.

Only a mask can be thrown away. In sampling mode the end of a pass opens one, and when a class that
is being sampled is instrumented once more, the counts that the old mask holds are gone
(`ClassStep.executions_applyAll_lt_of_second_mask`).
-/

set_option autoImplicit false
set_option relaxedAutoImplicit false

namespace JvmCoverage

open ClassStore (Balanced)

namespace ClassPass

variable {pass : ClassPass} {line : UInt32} {record : LineRecord}

theorem balanced_instrumentAll (hstore : pass.store.Reachable)
    {methods : List (MethodInfo × List Instruction)}
    (hkept : ∀ method ∈ methods, ¬ DropsLine pass.settings line method.1 method.2)
    (hrecord : pass.store.line? line = some record) :
    Balanced pass.store (pass.instrumentAll methods).store line 0 0 := by
  obtain ⟨later, hlater, hhits⟩ := hits_instrumentAll hstore hkept hrecord
  exact ClassStore.balanced_of_record hrecord hlater (pass.mask_instrumentAll methods)
    (congrArg (·.value.toNat) hhits)

/-- The end of a sampling pass replaces the mask. -/
theorem balanced_finish (hstore : pass.store.Reachable)
    (hrecord : pass.store.line? line = some record)
    (hfits : pass.store.executions line < UInt32.size) :
    Balanced pass.store pass.finish line 0
      (if pass.settings.mode = .sampling then (pass.store.maskCount line).toNat else 0) := by
  unfold finish
  cases pass.settings.mode with
  | sampling =>
    exact ClassStore.balanced_apply hstore hrecord (.openMask pass.store.maxLine) nofun nofun hfits
  | tracing => exact ClassStore.balanced_of_same hrecord rfl rfl

end ClassPass

/-- What happens to a class in the course of a run. -/
inductive ClassStep
  | operate (op : ClassOp)
  /-- A pass over some methods, from its start to its end. -/
  | instrument (settings : Settings) (methods : List (MethodInfo × List Instruction))

namespace ClassStep

def apply : ClassStep → ClassStore → ClassStore
  | operate op, store => op.apply store
  | instrument settings methods, store =>
    (({ store, settings } : ClassPass).instrumentAll methods).finish

def applyAll (steps : List ClassStep) (store : ClassStore) : ClassStore :=
  steps.foldl (fun store step ↦ step.apply store) store

/-- The step leaves the line its record. -/
def Keeps (line : UInt32) : ClassStep → Prop
  | operate op => op ≠ .removeLine line
  | instrument settings methods =>
    ∀ method ∈ methods, ¬ DropsLine settings line method.1 method.2

/-- The executions of the line that the step counts. -/
def added (line : UInt32) (store : ClassStore) : ClassStep → Nat
  | operate op => op.added line store
  | instrument _ _ => 0

/-- The executions of the line that the step throws away. -/
def discarded (line : UInt32) (store : ClassStore) : ClassStep → Nat
  | operate op => op.discarded line store
  | instrument settings _ =>
    if settings.mode = .sampling then (store.maskCount line).toNat else 0

def addedAll (line : UInt32) : List ClassStep → ClassStore → Nat
  | [], _ => 0
  | step :: rest, store => step.added line store + addedAll line rest (step.apply store)

def discardedAll (line : UInt32) : List ClassStep → ClassStore → Nat
  | [], _ => 0
  | step :: rest, store => step.discarded line store + discardedAll line rest (step.apply store)

/-- At no step do the executions of the line exceed what a counter can hold. -/
def Fits (line : UInt32) : List ClassStep → ClassStore → Prop
  | [], _ => True
  | step :: rest, store =>
    store.executions line + step.added line store < UInt32.size ∧ Fits line rest (step.apply store)

variable {store : ClassStore} {line : UInt32} {step : ClassStep} {steps : List ClassStep}

theorem reachable_apply (hstore : store.Reachable)
    (htheirs : ∀ theirs, step = .operate (.merge theirs) → theirs.Reachable) :
    (step.apply store).Reachable := by
  cases step with
  | operate op => exact hstore.operated op fun theirs heq ↦ htheirs theirs (congrArg operate heq)
  | instrument settings methods =>
    have hbegun : ({ store, settings } : ClassPass).store.Reachable := hstore
    exact ClassPass.reachable_finish (ClassPass.reachable_instrumentAll hbegun methods)

theorem balanced_apply (hstore : store.Reachable) (hline : store.containsLine line = true)
    (htheirs : ∀ theirs, step = .operate (.merge theirs) → theirs.Reachable)
    (hkept : step.Keeps line)
    (hfits : store.executions line + step.added line store < UInt32.size) :
    Balanced store (step.apply store) line (step.added line store)
      (step.discarded line store) := by
  obtain ⟨record, hrecord⟩ := Option.isSome_iff_exists.mp hline
  cases step with
  | operate op =>
    exact ClassStore.balanced_apply hstore hrecord op hkept
      (fun theirs heq ↦ htheirs theirs (congrArg operate heq)) hfits
  | instrument settings methods =>
    let pass : ClassPass := { store, settings }
    have hbegun : pass.store.Reachable := hstore
    have hfound : pass.store.line? line = some record := hrecord
    have hwalked := ClassPass.balanced_instrumentAll hbegun hkept hfound
    obtain ⟨later, hlater⟩ := Option.isSome_iff_exists.mp hwalked.containsLine
    have hsame : (pass.instrumentAll methods).store.executions line = store.executions line :=
      hwalked.executions_eq
    have hfinished := ClassPass.balanced_finish
      (ClassPass.reachable_instrumentAll hbegun methods) hlater (hsame ▸ hfits)
    rw [pass.settings_instrumentAll, ClassStore.maskCount_congr (pass.mask_instrumentAll methods)]
      at hfinished
    have hboth := hwalked.trans hfinished
    simp only [Nat.zero_add] at hboth
    exact hboth

/-- Over any steps that leave a line its record, what is on record for it at the end and what was
thrown away are what was on record at first and what the steps added. So the executions on record
never get fewer unless a mask is replaced that counted some of them. -/
theorem executions_applyAll (hstore : store.Reachable) (hline : store.containsLine line = true)
    (htheirs : ∀ theirs, .operate (.merge theirs) ∈ steps → theirs.Reachable)
    (hkept : ∀ step ∈ steps, step.Keeps line) (hfits : Fits line steps store) :
    (applyAll steps store).containsLine line = true ∧
      (applyAll steps store).executions line + discardedAll line steps store =
        store.executions line + addedAll line steps store ∧
      (discardedAll line steps store = 0 →
        store.executions line ≤ (applyAll steps store).executions line) := by
  suffices hbalanced : Balanced store (applyAll steps store) line (addedAll line steps store)
      (discardedAll line steps store) by
    have hequal := hbalanced.executions_eq
    exact ⟨hbalanced.containsLine, hequal, fun hnothing ↦ by omega⟩
  induction steps generalizing store with
  | nil => exact ⟨hline, rfl⟩
  | cons step rest ih =>
    have htheirsFirst (theirs : ClassStore) (heq : step = .operate (.merge theirs)) :
        theirs.Reachable := htheirs theirs (heq ▸ List.mem_cons_self)
    have hfirst := balanced_apply hstore hline htheirsFirst (hkept step List.mem_cons_self) hfits.1
    exact hfirst.trans (ih (reachable_apply hstore htheirsFirst) hfirst.containsLine
      (fun theirs hmem ↦ htheirs theirs (List.mem_cons_of_mem _ hmem))
      (fun other hother ↦ hkept other (List.mem_cons_of_mem _ hother)) hfits.2)

/-- Line 3 is counted in the mask and in its record, the mask is folded by a save that fails,
another store is merged, and the class is instrumented once more. -/
theorem executions_applyAll_of_sampled_class :
    let method : MethodInfo := ⟨"C", "m", "()V", 52⟩
    let pass : ClassStep := .instrument { mode := .sampling } [(method, [.marker 3, .iload 1])]
    let store := pass.apply { name := "C" }
    let theirs := ClassOp.applyAll [.ensureLine 3 "m()V" [.hit], .openMask 3, .hitMask 3]
      { name := "C" }
    let steps : List ClassStep := [.operate (.hitMask 3), .operate (.hitLine 3),
      .operate (.save {} { capacity := some 0 }), .operate (.merge theirs),
      .instrument { mode := .sampling } [(method, [.marker 4, .iload 1])], .operate (.hitMask 3)]
    store.Reachable ∧ store.containsLine 3 = true ∧ theirs.Reachable ∧
      (∀ step ∈ steps, step.Keeps 3) ∧ Fits 3 steps store ∧ discardedAll 3 steps store = 0 ∧
      store.executions 3 ≤ (applyAll steps store).executions 3 ∧
      (applyAll steps store).executions 3 = 5 := by
  intro method pass store theirs steps
  have hstore : store.Reachable := reachable_apply (.fresh "C") (by simp [pass])
  have hline : store.containsLine 3 = true := by decide +kernel
  have htheirs : theirs.Reachable := .applyAll (.fresh "C") (by simp)
  have hkept : ∀ step ∈ steps, step.Keeps 3 := by
    simp only [steps, List.forall_mem_cons, Keeps]
    refine ⟨nofun, nofun, nofun, nofun, ?_, nofun, nofun⟩
    decide
  have hfits : Fits 3 steps store := by
    refine ⟨by decide +kernel, by decide +kernel, by decide +kernel, by decide +kernel,
      by decide +kernel, by decide +kernel, trivial⟩
  have hnothing : discardedAll 3 steps store = 0 := by decide +kernel
  have hmerged (other : ClassStore) (hother : .operate (.merge other) ∈ steps) :
      other.Reachable := by
    obtain rfl : other = theirs := by simpa [steps] using hother
    exact htheirs
  obtain ⟨-, -, hmonotone⟩ := executions_applyAll hstore hline hmerged hkept hfits
  exact ⟨hstore, hline, htheirs, hkept, hfits, hnothing, hmonotone hnothing, by decide +kernel⟩

/-- The mask of a class that was sampled counts line 3 once; it is replaced when the class is
instrumented again, or when a mask is opened once more. -/
theorem executions_applyAll_lt_of_second_mask :
    let method : MethodInfo := ⟨"C", "m", "()V", 52⟩
    let pass : ClassStep := .instrument { mode := .sampling } [(method, [.marker 3, .iload 1])]
    let store := applyAll [pass, .operate (.hitMask 3)] { name := "C" }
    let again : ClassStep := .operate (.openMask 3)
    store.Reachable ∧ store.executions 3 = 1 ∧
      (pass.Keeps 3 ∧ Fits 3 [pass] store ∧ (pass.apply store).containsLine 3 = true ∧
        (pass.apply store).executions 3 = 0) ∧
      (again.Keeps 3 ∧ Fits 3 [again] store ∧ (again.apply store).containsLine 3 = true ∧
        (again.apply store).executions 3 = 0) := by
  intro method pass store again
  have hsampled : (pass.apply { name := "C" }).Reachable :=
    reachable_apply (.fresh "C") (by simp [pass])
  have hstore : store.Reachable := hsampled.operated (.hitMask 3) nofun
  have hpass : pass.Keeps 3 := by
    simp only [pass, Keeps]
    decide
  exact ⟨hstore, by decide +kernel,
    ⟨hpass, ⟨by decide +kernel, trivial⟩, by decide +kernel, by decide +kernel⟩,
    ⟨nofun, ⟨by decide +kernel, trivial⟩, by decide +kernel, by decide +kernel⟩⟩

end ClassStep

end JvmCoverage
