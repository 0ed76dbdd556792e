import JvmCoverage.Proofs.Instrumentation.Records
/-!
# Lines that methods share

Records are filed by line number alone, so a method can meet the record that another method made.
Instrumentation adds to such a record, and the cleanup filter may take from it in two ways. It
retracts the line when the method has nothing but cleanup code on it, whoever owns the record. And
it takes back the jumps of null checks from the end of the row, which are the jumps that it means
only when they were declared: `Retains` counts on the record, beside what it had, a jump for each
null check that waits, and this holds from one event to the next as long as jumps are declared at
all and there are ids for them (`MethodPass.RunsAt.retains_visit`).

The main statement is `ClassPass.instrument_growsTo`: outside these two cases a record that was
there keeps its owner, its counts and its branches.
-/

set_option autoImplicit false
set_option relaxedAutoImplicit false

namespace JvmCoverage

/-! ### Lines that are retracted somewhere -/

namespace Cleanup

/-- A segment that is still to come starts at the next event or later. -/
theorem exists_segment_cons_iff {instruction : Instruction} {rest : List Instruction}
    {line : UInt32} (property : List Instruction → Prop) :
    (∃ before after, instruction :: rest = before ++ .marker line :: after ∧ property after) ↔
      (instruction = .marker line ∧ property rest) ∨
        ∃ before after, rest = before ++ .marker line :: after ∧ property after := by
  constructor
  · rintro ⟨before, after, hsplit, hproperty⟩
    rcases before with _ | ⟨first, before⟩
    · obtain ⟨rfl, rfl⟩ := List.cons.inj hsplit
      exact .inl ⟨rfl, hproperty⟩
    · exact .inr ⟨before, after, (List.cons.inj hsplit).2, hproperty⟩
  · rintro (⟨rfl, hproperty⟩ | ⟨before, after, rfl, hproperty⟩)
    · exact ⟨[], rest, rfl, hproperty⟩
    · exact ⟨instruction :: before, after, rfl, hproperty⟩

/-- A line is retracted at some event exactly when one of its segments is cleanup code, the one that
is open or one that is still to come. -/
theorem mem_flatten_closings_iff (open? : Option Segment) (instructions : List Instruction)
    (line : UInt32) :
    line ∈ (closings open? instructions).flatten ↔
      (∃ segment, open? = some segment ∧ segment.line = line ∧
        IsCleanup (segment.body ++ bodyOf instructions)) ∨
      ∃ before after, instructions = before ++ .marker line :: after ∧
        IsCleanup (bodyOf after) := by
  have hclosing (open? : Option Segment) : line ∈ open?.elim [] Segment.retracted ↔
      ∃ segment, open? = some segment ∧ segment.line = line ∧ IsCleanup segment.body := by
    rcases open? with _ | segment
    · simp
    · simp only [Option.elim_some, Segment.retracted]
      split_ifs with hcleanup <;> simp [hcleanup, eq_comm]
  induction instructions generalizing open? with
  | nil => simp [closings, bodyOf, hclosing]
  | cons instruction rest ih =>
    rw [exists_segment_cons_iff]
    obtain ⟨opened, rfl⟩ | hmarker := instruction.eq_marker_or
    · have hbody : bodyOf (.marker opened :: rest) = [] := rfl
      rw [closings, List.flatten_cons, List.mem_append, hclosing, hbody]
      refine (or_congr_right (ih (some { line := opened }))).trans ?_
      simp
    · have hclosings : closings open? (instruction :: rest) =
          [] :: closings (open?.map (·.extend instruction)) rest := by
        cases instruction with
        | marker opened => cases hmarker
        | _ => rfl
      rw [hclosings, List.flatten_cons, List.nil_append, bodyOf_cons hmarker]
      refine (ih (open?.map (·.extend instruction))).trans ?_
      rcases open? with _ | segment <;> simp [Instruction.ne_marker hmarker, Segment.extend]

end Cleanup

open Cleanup (IsCleanup bodyOf closings chainAt Progress droppedLines)

/-! ### Null checks on a record -/

/-- The record has grown to `later`, which has further jumps for the null checks that wait and ids
for so many more; where there was no jump in the first place none can be lost. -/
structure Retains (record later : LineRecord) (pending room : Nat) : Prop where
  grows : record.GrowsTo later
  spare : record.jumps = #[] ∨ later.Positional ∧ later.jumps.size + room ≤ UInt32.size ∧
    record.jumps.size + pending ≤ later.jumps.size

namespace Retains

variable {record later : LineRecord} {pending room : Nat}

/-- Checks that wait no more. -/
theorem settle (hretains : Retains record later pending room) : Retains record later 0 room where
  grows := hretains.grows
  spare := hretains.spare.imp_right fun ⟨hpositional, hroom, _⟩ ↦
    ⟨hpositional, hroom, hretains.grows.size_jumps_le⟩

theorem shrink (hretains : Retains record later pending room) {less : Nat} (hless : less ≤ room) :
    Retains record later pending less where
  grows := hretains.grows
  spare := hretains.spare.imp_right fun ⟨hpositional, hroom, hpending⟩ ↦
    ⟨hpositional, Nat.le_trans (Nat.add_le_add_left hless _) hroom, hpending⟩

/-- A branch is declared and the checks that are done with are taken back. -/
theorem declare_dropJumps {instruction : Instruction} {dropped waiting : Nat}
    (hretains : Retains record later pending (instruction.isConditionalJump.toNat + room))
    (hdropped : waiting + dropped ≤ pending + instruction.isConditionalJump.toNat) :
    Retains record ((later.declare instruction).dropJumps dropped) waiting room := by
  have hgrows := hretains.grows.trans (.declare later instruction)
  rcases hretains.spare with hnone | ⟨hpositional, hroom, hpending⟩
  · exact ⟨hgrows.dropJumps (by simp [hnone]), .inl hnone⟩
  · have hsize := LineRecord.size_jumps_declare hpositional instruction (by omega)
    refine ⟨hgrows.dropJumps (by omega), .inr ⟨(hpositional.declare _).dropJumps _, ?_, ?_⟩⟩
    · rw [LineRecord.size_jumps_dropJumps]
      omega
    · rw [LineRecord.size_jumps_dropJumps]
      omega

end Retains

/-- The null checks that wait on a line. -/
def Cleanup.Progress.pendingOn (progress : Progress) (line : UInt32) : Nat :=
  if progress.line = some line then progress.pendingChecks.toNat else 0

/-! ### One event -/

namespace MethodPass

variable {pass : MethodPass} {progress : Progress} {line : UInt32} {record : LineRecord}

/-- The pass has a record that retains the given one. -/
def HasRetained (pass : MethodPass) (line : UInt32) (record : LineRecord) (pending room : Nat) :
    Prop :=
  ∃ later, pass.store.line? line = some later ∧ Retains record later pending room

/-- An event that neither declares anything on the line nor retracts anything of it. -/
theorem HasRetained.visit_of_quiet {instruction : Instruction} {pending room : Nat}
    (hretained : pass.HasRetained line record pending
      (instruction.isConditionalJump.toNat + room))
    (hstore : pass.store.Reachable)
    (hquiet : ∀ call ∈ (pass.filters.deliver instruction.signal).2, call.line ≠ line)
    (hnothing : ∀ later, pass.declaring line instruction later = later) :
    (pass.visit instruction).HasRetained line record 0 room := by
  obtain ⟨later, hlater, hretains⟩ := hretained
  refine ⟨later, ?_, hretains.settle.shrink (Nat.le_add_left _ _)⟩
  rw [line?_visit_of_quiet hstore hquiet hlater, hnothing]

/-- An event within the line. -/
theorem RunsAt.retains_within (hpass : pass.RunsAt true progress) {instruction : Instruction}
    (hmarker : instruction.isMarker = false) (hline : progress.line = some line)
    (hbranches : record.jumps = #[] ∨ pass.settings.countsBranches = true) {room : Nat}
    (hretained : pass.HasRetained line record progress.pendingChecks.toNat
      (instruction.isConditionalJump.toNat + room)) :
    (pass.visit instruction).HasRetained line record
      (progress.read instruction.signal.letter?).1.pendingChecks.toNat room := by
  obtain ⟨later, hlater, hretains⟩ := hretained
  rw [HasRetained, hpass.line?_visit hmarker hline, hlater, Option.map_some]
  refine ⟨_, rfl, ?_⟩
  rcases hbranches with hnone | hcounts
  · have hgrows := hretains.grows.trans (pass.growsTo_declaring line instruction later)
    exact ⟨hgrows.dropJumps (by simp [hnone]), .inl hnone⟩
  · have hdeclares : pass.declaring line instruction later = later.declare instruction :=
      if_pos ⟨hpass.currentLine_eq.trans hline, hcounts⟩
    rw [hdeclares]
    exact hretains.declare_dropJumps (progress.pendingChecks_signal_le instruction)

theorem RunsAt.retains_visit (hpass : pass.RunsAt true progress) {instruction : Instruction}
    (hkept : .dropLine line ∉ (pass.filters.deliver instruction.signal).2)
    (hbranches : record.jumps = #[] ∨ pass.settings.countsBranches = true) {room : Nat}
    (hretained : pass.HasRetained line record (progress.pendingOn line)
      (instruction.isConditionalJump.toNat + room)) :
    (pass.visit instruction).HasRetained line record
      ((progress.step instruction.signal).1.pendingOn line) room := by
  obtain ⟨opened, rfl⟩ | hmarker := instruction.eq_marker_or
  · -- the line that closes is another one, or it is not cleanup code
    have hquiet : ∀ call ∈ (pass.filters.deliver (Instruction.marker opened).signal).2,
        call.line ≠ line := by
      intro call hcall heq
      have hdropped : call ∈ progress.retractable?.toList.map .dropLine := by
        rw [hpass.deliver_eq] at hcall
        exact hcall
      obtain ⟨dropped, -, rfl⟩ := List.mem_map.mp hdropped
      exact hkept (heq ▸ hcall)
    have hnone : (progress.step (Instruction.marker opened).signal).1.pendingOn line = 0 :=
      ite_self _
    rw [hnone]
    exact hretained.visit_of_quiet hpass.reachable hquiet fun later ↦ ite_self _
  · rw [progress.step_signal hmarker]
    by_cases hline : progress.line = some line
    · have hread : (progress.read instruction.signal.letter?).1.line = some line :=
        (progress.line_read _).trans hline
      rw [Progress.pendingOn, if_pos hline] at hretained
      rw [Progress.pendingOn, if_pos hread]
      exact hpass.retains_within hmarker hline hbranches hretained
    · -- another line is open
      have hread : (progress.read instruction.signal.letter?).1.line ≠ some line := by
        rwa [progress.line_read]
      rw [Progress.pendingOn, if_neg hread]
      refine hretained.visit_of_quiet hpass.reachable (fun call hcall heq ↦ hline ?_) fun later ↦ ?_
      · exact heq ▸ hpass.line_of_mem hcall
      · exact if_neg fun hboth ↦ hline (hpass.currentLine_eq ▸ hboth.1)

/-! ### A whole method -/

theorem RunsAt.exists_visitAll (hpass : pass.RunsAt true progress)
    (instructions : List Instruction) : ∃ last, (pass.visitAll instructions).RunsAt true last := by
  induction instructions generalizing pass progress with
  | nil => exact ⟨progress, hpass⟩
  | cons instruction rest ih => exact ih (hpass.visit instruction)

theorem RunsAt.growsTo_visitAll (hpass : pass.RunsAt true progress)
    {instructions : List Instruction} (hkept : .dropLine line ∉ pass.retractions instructions)
    (hbranches : record.jumps = #[] ∨ pass.settings.countsBranches = true)
    (hretained : pass.HasRetained line record (progress.pendingOn line)
      (instructions.countP Instruction.isConditionalJump)) :
    ∃ later, (pass.visitAll instructions).store.line? line = some later ∧
      record.GrowsTo later := by
  induction instructions generalizing pass progress with
  | nil =>
    obtain ⟨later, hlater, hretains⟩ := hretained
    exact ⟨later, hlater, hretains.grows⟩
  | cons instruction rest ih =>
    rw [retractions_cons, List.mem_append, not_or] at hkept
    rw [Instruction.countP_isConditionalJump_cons] at hretained
    refine ih (hpass.visit instruction) hkept.2 ?_ (hpass.retains_visit hkept.1 hbranches hretained)
    rwa [settings_visit]

theorem RunsAt.line?_finish (hpass : pass.RunsAt true progress)
    (hkept : .dropLine line ∉ (pass.filters.deliver .finish).2) :
    pass.finish.1.line? line = pass.store.line? line := by
  rw [hpass.deliver_eq, progress.calls_finish] at hkept
  refine ClassStore.line?_retractAll hpass.reachable fun call hcall heq ↦ hkept ?_
  have hfinish : call ∈ progress.retractable?.toList.map .dropLine := by
    rw [← progress.calls_finish]
    exact (congrArg Prod.snd (hpass.deliver_eq .finish)) ▸ hcall
  obtain ⟨dropped, -, rfl⟩ := List.mem_map.mp hfinish
  exact heq ▸ hfinish

theorem RunsAt.growsTo_finish (hpass : pass.RunsAt true progress)
    {instructions : List Instruction}
    (hkept : .dropLine line ∉
      (pass.filters.callsOf (instructions.map Instruction.signal ++ [.finish])).flatten)
    (hbranches : record.jumps = #[] ∨ pass.settings.countsBranches = true)
    (hretained : pass.HasRetained line record (progress.pendingOn line)
      (instructions.countP Instruction.isConditionalJump)) :
    ∃ later, (pass.visitAll instructions).finish.1.line? line = some later ∧
      record.GrowsTo later := by
  rw [flatten_callsOf_finish, List.mem_append, not_or] at hkept
  obtain ⟨later, hlater, hgrows⟩ := hpass.growsTo_visitAll hkept.1 hbranches hretained
  obtain ⟨last, hlast⟩ := hpass.exists_visitAll instructions
  exact ⟨later, (hlast.line?_finish hkept.2).trans hlater, hgrows⟩

/-- The cleanup filter retracts no line whose segments all hold something else. -/
theorem dropLine_notMem_callsOf {instructions : List Instruction}
    (hsegments : ∀ before after, instructions = before ++ .marker line :: after →
      ¬ IsCleanup (bodyOf after)) :
    .dropLine line ∉
      ((chainAt {}).callsOf (instructions.map Instruction.signal ++ [.finish])).flatten := by
  intro hdropped
  obtain ⟨calls, hcalls, hdropped⟩ := List.mem_flatten.mp hdropped
  have hclosing : line ∈ (closings none instructions).flatten := by
    rw [← Cleanup.map_droppedLines_callsOf {} none rfl instructions, List.mem_flatten]
    exact ⟨droppedLines calls, List.mem_map_of_mem hcalls,
      List.mem_filterMap.mpr ⟨.dropLine line, hdropped, rfl⟩⟩
  obtain ⟨_, ⟨⟩, _⟩ | ⟨before, after, hsplit, hcleanup⟩ :=
    (Cleanup.mem_flatten_closings_iff none instructions line).mp hclosing
  exact hsegments before after hsplit hcleanup

end MethodPass

namespace ClassPass

/-- A record that is there before a method, whoever owns it, is there after the method with what it
had: owner, counts and branches. When the cleanup filter watches, this holds unless the method has a
segment of nothing but cleanup code on the line, as long as every null check is declared as a jump
and every jump has an id of its own. -/
theorem instrument_growsTo {pass : ClassPass} (hstore : pass.store.Reachable) (method : MethodInfo)
    (instructions : List Instruction) {line : UInt32} {record : LineRecord}
    (hrecord : pass.store.line? line = some record)
    (hwatched : pass.settings.filters.tryWithResources = true →
      (method.classVersion = 0 ∨ 51 ≤ method.classVersion) →
      (∀ before after, instructions = before ++ .marker line :: after →
        ¬ IsCleanup (bodyOf after)) ∧
      (record.jumps = #[] ∨ pass.settings.countsBranches = true ∧ record.Positional ∧
        record.jumps.size + instructions.countP Instruction.isConditionalJump ≤ UInt32.size)) :
    ∃ later, (pass.instrument method instructions).1.store.line? line = some later ∧
      record.GrowsTo later := by
  have hfilters := MethodPass.filters_start pass.store pass.settings method
  change (pass.beginMethod method).filters = _ at hfilters
  have hbegun : (pass.beginMethod method).store.Reachable := hstore
  cases hactive : pass.settings.filters.tryWithResources && Cleanup.filter.applicable method with
  | false =>
    rw [hactive, if_neg Bool.false_ne_true] at hfilters
    refine MethodPass.growsTo_finish hbegun ?_ hrecord
    rw [hfilters, FilterChain.flatten_callsOf_empty]
    simp
  | true =>
    rw [hactive, if_pos rfl] at hfilters
    obtain ⟨henabled, happlicable⟩ := (Bool.and_eq_true _ _).mp hactive
    obtain ⟨hsegments, hjumps⟩ := hwatched henabled ((Cleanup.applicable_iff method).mp happlicable)
    have hstart : (pass.beginMethod method).RunsAt true {} := ⟨hbegun, hfilters, rfl⟩
    refine hstart.growsTo_finish ?_ (hjumps.imp_right And.left) ⟨record, hrecord, .refl record, ?_⟩
    · rw [hfilters]
      exact MethodPass.dropLine_notMem_callsOf hsegments
    · exact hjumps.imp_right fun ⟨_, hpositional, hroom⟩ ↦ ⟨hpositional, hroom, Nat.le_refl _⟩

/-- The line of a conditional jump of one method, and another method that guards and closes a
resource on it and goes on with a jump of its own. -/
theorem instrument_growsTo_of_null_check :
    let pass : ClassPass := (({ store := { name := "C" }, settings := {} } : ClassPass).instrument
      ⟨"C", "a", "()V", 52⟩ [.marker 7, .iload 1, .jumpAnywhere .ifEq]).1
    let instructions : List Instruction := [.marker 7, .aload 1, .jumpAnywhere .ifNull, .aload 1,
      .invokeVirtual "java/io/Reader" "close" "()V", .jumpAnywhere .goto, .iload 2,
      .jumpAnywhere .ifNe]
    let record : LineRecord := { line := 7, signature := "a()V", jumps := #[{ id := 0 }] }
    pass.store.line? 7 = some record ∧
      ∃ later, (pass.instrument ⟨"C", "b", "()V", 52⟩ instructions).1.store.line? 7 = some later ∧
        record.GrowsTo later := by
  intro pass instructions record
  have hstore : pass.store.Reachable := reachable_instrument (.fresh "C") _ _
  have hrecord : pass.store.line? 7 = some record := by decide +kernel
  have hclosings : 7 ∉ (closings none instructions).flatten := by decide
  refine ⟨hrecord, instrument_growsTo hstore ⟨"C", "b", "()V", 52⟩ instructions hrecord ?_⟩
  refine fun _ _ ↦ ⟨fun before after hsplit hcleanup ↦ hclosings ?_,
    .inr ⟨by decide, by decide, by decide⟩⟩
  exact (Cleanup.mem_flatten_closings_iff none instructions 7).mpr
    (.inr ⟨before, after, hsplit, hcleanup⟩)

/-- A line of one method that another method takes something from: the whole line, when it closes a
resource there and does nothing else, and the jump, when it guards the resource and branches are not
counted. -/
theorem instrument_not_growsTo_of_shared_line :
    let pass : ClassPass := (({ store := { name := "C" }, settings := {} } : ClassPass).instrument
      ⟨"C", "a", "()V", 52⟩ [.marker 7, .iload 1, .jumpAnywhere .ifEq]).1
    let unbranched : ClassPass := { store := pass.store, settings := { branchCoverage := false } }
    let close : Instruction := .invokeVirtual "java/io/Reader" "close" "()V"
    pass.store.Reachable ∧
      pass.store.line? 7 =
        some { line := 7, signature := "a()V", jumps := #[{ id := 0 }] } ∧
      (pass.instrument ⟨"C", "b", "()V", 52⟩ [.marker 7, .aload 1, close]).1.store.line? 7 =
        none ∧
      (unbranched.instrument ⟨"C", "b", "()V", 52⟩ [.marker 7, .aload 1, .jumpAnywhere .ifNull,
        .aload 1, close, .jumpAnywhere .goto, .iload 1]).1.store.line? 7 =
        some { line := 7, signature := "a()V" } := by
  intro pass unbranched close
  exact ⟨reachable_instrument (.fresh "C") _ _, by decide +kernel, by decide +kernel,
    by decide +kernel⟩

end ClassPass

end JvmCoverage
