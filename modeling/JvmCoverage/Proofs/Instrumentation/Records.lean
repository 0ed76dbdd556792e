import JvmCoverage.Proofs.Cleanup.Discharge
import JvmCoverage.Proofs.Instrumentation.Survivors
/-!
# What an event leaves of a record

An event of a method does two things to the record of a line: it may declare a branch
(`MethodPass.line?_record`), and the filters may take something back. When nothing is retracted of
the line, the record only grows (`MethodPass.growsTo_visitAll`). When the cleanup filter watches,
what it takes back within a line is exactly the jumps of the null checks that wait there
(`MethodPass.RunsAt.line?_visit`), and never more of them than were declared
(`Cleanup.Progress.pendingChecks_read_le`).

Ids are positions throughout, and `ClassStore.HasRoom` counts how many of them are left on a line.
-/

set_option autoImplicit false
set_option relaxedAutoImplicit false

namespace JvmCoverage

namespace Cleanup.Progress

theorem step_signal (progress : Progress) {instruction : Instruction}
    (hmarker : instruction.isMarker = false) :
    progress.step instruction.signal = progress.read instruction.signal.letter? := by
  cases instruction with
  | marker line => cases hmarker
  | _ => rfl

end Cleanup.Progress

/-- Without filters nothing is retracted. -/
theorem FilterChain.flatten_callsOf_empty {κ : Type} (signals : List Signal) :
    (({} : FilterChain κ).callsOf signals).flatten = [] := by
  induction signals with
  | nil => rfl
  | cons signal rest ih => exact ih

open Cleanup (Progress chainAt deliver_chainAt)

/-! ### What retractions leave of a record -/

namespace ClassStore

variable {store : ClassStore}

theorem line?_retractAll_replicate (hstore : store.Reachable) (count : Nat) (line : UInt32) :
    (store.retractAll (List.replicate count (.dropLastJump line))).line? line =
      (store.line? line).map (·.dropJumps count) := by
  induction count generalizing store with
  | zero =>
    show store.line? line = _
    cases store.line? line <;> simp [LineRecord.dropJumps_zero]
  | succ count ih =>
    rw [List.replicate_succ]
    refine (ih (hstore.retract (.dropLastJump line))).trans ?_
    rw [retract, line?_dropLastJump hstore.wellFormed, if_pos rfl, Option.map_map]
    exact congrArg (Option.map · _) (funext fun record ↦ record.dropJumps_dropLastJump count)

/-- A record that is left after retractions has lost nothing but jumps from the end. -/
theorem exists_dropJumps_of_retractAll (hstore : store.Reachable) {calls : List Retraction}
    {line : UInt32} {later : LineRecord}
    (hlater : (store.retractAll calls).line? line = some later) :
    ∃ record count, store.line? line = some record ∧ later = record.dropJumps count := by
  induction calls generalizing store with
  | nil => exact ⟨later, 0, hlater, later.dropJumps_zero.symm⟩
  | cons call rest ih =>
    obtain ⟨middle, count, hmiddle, rfl⟩ := ih (hstore.retract call) hlater
    rcases call with dropped | dropped
    · rw [retract, line?_removeLine hstore.wellFormed] at hmiddle
      split_ifs at hmiddle
      exact ⟨middle, count, hmiddle, rfl⟩
    · rw [retract, line?_dropLastJump hstore.wellFormed] at hmiddle
      split_ifs at hmiddle
      · obtain ⟨record, hrecord, rfl⟩ := Option.map_eq_some_iff.mp hmiddle
        exact ⟨record, count + 1, hrecord, record.dropJumps_dropLastJump count⟩
      · exact ⟨middle, count, hmiddle, rfl⟩

/-- The ids of a line are positions, and there are ids left for this many further jumps, whether the
line has a record or gets one. -/
structure HasRoom (store : ClassStore) (line : UInt32) (room : Nat) : Prop where
  room_le : room ≤ UInt32.size
  record : ∀ record, store.line? line = some record →
    record.Positional ∧ record.jumps.size + room ≤ UInt32.size

theorem HasRoom.retractAll {line : UInt32} {room : Nat} (hroom : store.HasRoom line room)
    (hstore : store.Reachable) (calls : List Retraction) :
    (store.retractAll calls).HasRoom line room where
  room_le := hroom.room_le
  record later hlater := by
    obtain ⟨record, count, hrecord, rfl⟩ := exists_dropJumps_of_retractAll hstore hlater
    obtain ⟨hpositional, hsize⟩ := hroom.record record hrecord
    refine ⟨hpositional.dropJumps count, ?_⟩
    rw [LineRecord.size_jumps_dropJumps]
    omega

end ClassStore

/-! ### One event -/

namespace MethodPass

variable {pass : MethodPass} {line : UInt32} {record : LineRecord} {instruction : Instruction}

/-- The record of a line with what an event declares on it. -/
def declaring (pass : MethodPass) (line : UInt32) (instruction : Instruction)
    (record : LineRecord) : LineRecord :=
  if pass.currentLine = some line ∧ pass.settings.countsBranches = true then
    record.declare instruction
  else record

theorem growsTo_declaring (pass : MethodPass) (line : UInt32) (instruction : Instruction)
    (record : LineRecord) : record.GrowsTo (pass.declaring line instruction record) := by
  unfold declaring
  split_ifs
  · exact .declare record instruction
  · exact .refl record

theorem positional_declaring (hpositional : record.Positional) :
    (pass.declaring line instruction record).Positional := by
  unfold declaring
  split_ifs
  · exact hpositional.declare instruction
  · exact hpositional

theorem size_jumps_declaring_le (pass : MethodPass) (line : UInt32) (instruction : Instruction)
    (hpositional : record.Positional)
    (hroom : record.jumps.size + instruction.isConditionalJump.toNat ≤ UInt32.size) :
    (pass.declaring line instruction record).jumps.size ≤
      record.jumps.size + instruction.isConditionalJump.toNat := by
  unfold declaring
  split_ifs
  · exact Nat.le_of_eq (LineRecord.size_jumps_declare hpositional _ hroom)
  · exact Nat.le_add_right _ _

theorem line?_record (hstore : pass.store.WellFormed) (instruction : Instruction) (line : UInt32) :
    (pass.record instruction).store.line? line =
      (pass.store.line? line).map (pass.declaring line instruction) := by
  have hdeclare (declareOn : ClassStore → UInt32 → ClassStore) (f : LineRecord → LineRecord)
      (hf : ∀ opened, (declareOn pass.store opened).line? line =
        if line = opened then (pass.store.line? line).map f else pass.store.line? line) :
      (pass.declare declareOn).store.line? line = (pass.store.line? line).map fun record ↦
        if pass.currentLine = some line ∧ pass.settings.countsBranches = true then f record
        else record := by
    unfold declare
    rcases pass.currentLine with _ | opened
    · simp
    · cases pass.settings.countsBranches with
      | false => simp
      | true =>
        refine (hf opened).trans ?_
        rcases eq_or_ne line opened with rfl | hother
        · simp
        · simp [hother, Ne.symm hother]
  have hnothing : pass.store.line? line = (pass.store.line? line).map fun record ↦
      if pass.currentLine = some line ∧ pass.settings.countsBranches = true then record
      else record := by simp
  cases instruction with
  | jump kind target =>
    cases hkind : kind.isConditional with
    | false =>
      have hnone : pass.declaring line (.jump kind target) = fun record ↦ record :=
        funext fun record ↦ by simp [declaring, LineRecord.declare, hkind]
      simp [hnone, MethodPass.record, hkind]
    | true =>
      have hjump : pass.declaring line (.jump kind target) = fun record ↦
          if pass.currentLine = some line ∧ pass.settings.countsBranches = true then
            record.addJump (UInt32.ofNat record.jumps.size)
          else record :=
        funext fun record ↦ by simp [declaring, LineRecord.declare, hkind]
      rw [hjump, MethodPass.record, if_pos hkind]
      exact hdeclare _ _ fun opened ↦ ClassStore.line?_declareJump hstore opened line
  | tableSwitch min max =>
    exact hdeclare _ _ fun opened ↦ ClassStore.line?_declareSwitch hstore opened _ line
  | lookupSwitch keys =>
    exact hdeclare _ _ fun opened ↦ ClassStore.line?_declareSwitch hstore opened _ line
  | _ => exact hnothing

theorem filters_visit (pass : MethodPass) (instruction : Instruction) :
    (pass.visit instruction).filters = (pass.filters.deliver instruction.signal).1 := by
  obtain ⟨opened, rfl⟩ | hmarker := instruction.eq_marker_or
  · rfl
  · rw [visit_eq hmarker, ← filters_record pass instruction]
    rfl

theorem settings_visit (pass : MethodPass) (instruction : Instruction) :
    (pass.visit instruction).settings = pass.settings := by
  obtain ⟨opened, rfl⟩ | hmarker := instruction.eq_marker_or
  · rfl
  · rw [visit_eq hmarker, record_eq]
    rfl

theorem settings_visitAll (pass : MethodPass) (instructions : List Instruction) :
    (pass.visitAll instructions).settings = pass.settings := by
  induction instructions generalizing pass with
  | nil => rfl
  | cons instruction rest ih => exact (ih _).trans (settings_visit pass instruction)

/-- A record of which nothing is retracted. -/
theorem line?_visit_of_quiet (hstore : pass.store.Reachable)
    (hquiet : ∀ call ∈ (pass.filters.deliver instruction.signal).2, call.line ≠ line)
    (hrecord : pass.store.line? line = some record) :
    (pass.visit instruction).store.line? line = some (pass.declaring line instruction record) := by
  obtain ⟨opened, rfl⟩ | hmarker := instruction.eq_marker_or
  · have hclosed : (pass.deliver (Instruction.marker opened).signal).store.line? line =
        some record :=
      (ClassStore.line?_retractAll hstore hquiet).trans hrecord
    have hnothing : pass.declaring line (.marker opened) record = record := ite_self _
    rw [hnothing]
    refine (ClassStore.line?_ensureLine (reachable_deliver hstore _).wellFormed opened _ line).trans
      ?_
    split_ifs with hline
    · subst hline
      rw [hclosed, Option.getD_some]
    · exact hclosed
  · have hrecorded := (pass.declared_record instruction).reachable hstore
    rw [← filters_record pass instruction] at hquiet
    rw [visit_eq hmarker]
    refine (ClassStore.line?_retractAll hrecorded hquiet).trans ?_
    rw [line?_record hstore.wellFormed, hrecord, Option.map_some]

/-! ### Events that retract nothing of a line -/

/-- What the filters retract over events. -/
def retractions (pass : MethodPass) (instructions : List Instruction) : List Retraction :=
  (pass.filters.callsOf (instructions.map Instruction.signal)).flatten

theorem retractions_cons (pass : MethodPass) (instruction : Instruction)
    (rest : List Instruction) : pass.retractions (instruction :: rest) =
      (pass.filters.deliver instruction.signal).2 ++ (pass.visit instruction).retractions rest := by
  rw [retractions, retractions, filters_visit]
  rfl

/-- The end of the method comes after its events. -/
theorem flatten_callsOf_finish (pass : MethodPass) (instructions : List Instruction) :
    (pass.filters.callsOf (instructions.map Instruction.signal ++ [.finish])).flatten =
      pass.retractions instructions ++
        ((pass.visitAll instructions).filters.deliver .finish).2 := by
  induction instructions generalizing pass with
  | nil => simp [retractions, FilterChain.callsOf, visitAll]
  | cons instruction rest ih =>
    rw [retractions_cons, List.append_assoc]
    refine Eq.trans ?_ (congrArg _ (ih (pass.visit instruction)))
    rw [filters_visit]
    rfl

theorem growsTo_visitAll (hstore : pass.store.Reachable) {instructions : List Instruction}
    (hquiet : ∀ call ∈ pass.retractions instructions, call.line ≠ line)
    (hrecord : pass.store.line? line = some record) :
    ∃ later, (pass.visitAll instructions).store.line? line = some later ∧
      record.GrowsTo later := by
  induction instructions generalizing pass record with
  | nil => exact ⟨record, hrecord, .refl record⟩
  | cons instruction rest ih =>
    simp only [retractions_cons, List.mem_append] at hquiet
    have hnext := line?_visit_of_quiet hstore (fun call hcall ↦ hquiet call (.inl hcall)) hrecord
    obtain ⟨later, hlater, hgrows⟩ := ih (reachable_visit hstore instruction)
      (fun call hcall ↦ hquiet call (.inr hcall)) hnext
    exact ⟨later, hlater, (pass.growsTo_declaring line instruction record).trans hgrows⟩

theorem growsTo_finish (hstore : pass.store.Reachable) {instructions : List Instruction}
    (hquiet : ∀ call ∈
      (pass.filters.callsOf (instructions.map Instruction.signal ++ [.finish])).flatten,
      call.line ≠ line)
    (hrecord : pass.store.line? line = some record) :
    ∃ later, (pass.visitAll instructions).finish.1.line? line = some later ∧
      record.GrowsTo later := by
  rw [flatten_callsOf_finish] at hquiet
  simp only [List.mem_append] at hquiet
  obtain ⟨later, hlater, hgrows⟩ :=
    growsTo_visitAll hstore (fun call hcall ↦ hquiet call (.inl hcall)) hrecord
  refine ⟨later, ?_, hgrows⟩
  rw [← hlater]
  exact ClassStore.line?_retractAll (reachable_visitAll hstore instructions) fun call hcall ↦
    hquiet call (.inr hcall)

/-! ### Room for jumps -/

theorem hasRoom_visit (hstore : pass.store.Reachable) {room : Nat}
    (hroom : pass.store.HasRoom line (instruction.isConditionalJump.toNat + room)) :
    (pass.visit instruction).store.HasRoom line room := by
  have hle := hroom.room_le
  obtain ⟨opened, rfl⟩ | hmarker := instruction.eq_marker_or
  · have hclosed : (pass.deliver (.line opened)).store.HasRoom line room := by
      have hsame : pass.store.HasRoom line room := by
        simpa [Instruction.isConditionalJump] using hroom
      exact hsame.retractAll hstore _
    refine ⟨hclosed.room_le, fun later hlater ↦ ?_⟩
    have hfound := (ClassStore.line?_ensureLine (reachable_deliver hstore (.line opened)).wellFormed
      opened pass.signature line).symm.trans hlater
    split_ifs at hfound with hline
    · subst hline
      cases hold : (pass.deliver (.line line)).store.line? line with
      | none =>
        rw [hold] at hfound
        cases hfound
        exact ⟨LineRecord.positional_fresh line pass.signature, by simpa using hclosed.room_le⟩
      | some old =>
        rw [hold] at hfound
        cases hfound
        exact hclosed.record _ hold
    · exact hclosed.record later hfound
  · have hrecorded := (pass.declared_record instruction).reachable hstore
    have hdeclared : (pass.record instruction).store.HasRoom line room := by
      refine ⟨by omega, fun later hlater ↦ ?_⟩
      rw [line?_record hstore.wellFormed] at hlater
      obtain ⟨old, hold, rfl⟩ := Option.map_eq_some_iff.mp hlater
      obtain ⟨hpositional, hsize⟩ := hroom.record old hold
      have hgrown := size_jumps_declaring_le pass line instruction hpositional (by omega)
      exact ⟨positional_declaring hpositional, by omega⟩
    rw [visit_eq hmarker]
    exact hdeclared.retractAll hrecorded _

theorem hasRoom_visitAll (hstore : pass.store.Reachable) {instructions : List Instruction}
    {room : Nat} (hroom : pass.store.HasRoom line
      (instructions.countP Instruction.isConditionalJump + room)) :
    (pass.visitAll instructions).store.HasRoom line room := by
  induction instructions generalizing pass with
  | nil =>
    rw [List.countP_nil, Nat.zero_add] at hroom
    exact hroom
  | cons instruction rest ih =>
    rw [Instruction.countP_isConditionalJump_cons, Nat.add_assoc] at hroom
    exact ih (reachable_visit hstore instruction) (hasRoom_visit hstore hroom)

/-! ### Events under the eyes of the cleanup filter -/

/-- The pass has the line open that the recognizer has open, and its filter is the recognizer, if it
has one. -/
structure RunsAt (pass : MethodPass) (active : Bool) (progress : Progress) : Prop where
  reachable : pass.store.Reachable
  filters_eq : pass.filters = if active then chainAt progress else {}
  currentLine_eq : pass.currentLine = progress.line

namespace RunsAt

variable {active : Bool} {progress : Progress}

theorem start {store : ClassStore} (hstore : store.Reachable) (settings : Settings)
    (method : MethodInfo) : (MethodPass.start store settings method).RunsAt
      (settings.filters.tryWithResources && Cleanup.filter.applicable method) {} :=
  ⟨hstore, filters_start store settings method, rfl⟩

theorem deliver_eq (hpass : pass.RunsAt active progress) (signal : Signal) :
    pass.filters.deliver signal =
      if active then (chainAt (progress.step signal).1, (progress.step signal).2)
      else ({}, []) := by
  rw [hpass.filters_eq]
  cases active with
  | false => rfl
  | true => exact deliver_chainAt progress signal

theorem visit (hpass : pass.RunsAt active progress) (instruction : Instruction) :
    (pass.visit instruction).RunsAt active (progress.step instruction.signal).1 where
  reachable := reachable_visit hpass.reachable instruction
  filters_eq := by
    rw [filters_visit, hpass.deliver_eq]
    cases active <;> rfl
  currentLine_eq := by
    obtain ⟨opened, rfl⟩ | hmarker := instruction.eq_marker_or
    · rfl
    · rw [progress.step_signal hmarker, progress.line_read, ← hpass.currentLine_eq,
        visit_eq hmarker, record_eq]
      rfl

/-- Within a line nothing but the null checks that are done with is taken back. -/
theorem calls_eq (hpass : pass.RunsAt active progress) (hmarker : instruction.isMarker = false) :
    (pass.filters.deliver instruction.signal).2 = progress.line.elim [] fun line ↦
      List.replicate (if active then progress.discharged instruction.signal.letter? else 0)
        (.dropLastJump line) := by
  rw [hpass.deliver_eq]
  cases active with
  | false => cases progress.line <;> rfl
  | true => exact (congrArg Prod.snd (progress.step_signal hmarker)).trans (progress.calls_read _)

/-- Nothing is retracted of a line that is not open. -/
theorem line_of_mem (hpass : pass.RunsAt active progress) {signal : Signal} {call : Retraction}
    (hcall : call ∈ (pass.filters.deliver signal).2) : progress.line = some call.line := by
  rw [hpass.deliver_eq] at hcall
  cases active with
  | false => exact absurd hcall List.not_mem_nil
  | true => exact Progress.line_of_mem_step hcall

/-- On the line that is open, a branch is declared and null checks are taken back. -/
theorem line?_visit (hpass : pass.RunsAt active progress) (hmarker : instruction.isMarker = false)
    (hline : progress.line = some line) :
    (pass.visit instruction).store.line? line = (pass.store.line? line).map fun record ↦
      (pass.declaring line instruction record).dropJumps
        (if active then progress.discharged instruction.signal.letter? else 0) := by
  have hrecorded := (pass.declared_record instruction).reachable hpass.reachable
  have hcalls := hpass.calls_eq hmarker
  rw [hline, Option.elim_some, ← filters_record pass instruction] at hcalls
  rw [visit_eq hmarker, deliver]
  dsimp only
  rw [hcalls, ClassStore.line?_retractAll_replicate hrecorded,
    line?_record hpass.reachable.wellFormed, Option.map_map]
  rfl

/-- Another line is left alone. -/
theorem line?_visit_of_ne (hpass : pass.RunsAt active progress)
    (hmarker : instruction.isMarker = false) (hline : progress.line ≠ some line) :
    (pass.visit instruction).store.line? line = pass.store.line? line := by
  have hrecorded := (pass.declared_record instruction).reachable hpass.reachable
  have hnothing : pass.declaring line instruction = id := funext fun record ↦
    if_neg fun hboth ↦ hline (hpass.currentLine_eq ▸ hboth.1)
  rw [visit_eq hmarker]
  refine (ClassStore.line?_retractAll hrecorded fun call hcall heq ↦ hline ?_).trans ?_
  · rw [filters_record] at hcall
    exact heq ▸ hpass.line_of_mem hcall
  · rw [line?_record hpass.reachable.wellFormed, hnothing, Option.map_id, id]

end RunsAt

end MethodPass

end JvmCoverage
