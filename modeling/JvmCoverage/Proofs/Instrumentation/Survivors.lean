import JvmCoverage.Proofs.Cleanup.Recognition
import JvmCoverage.Proofs.Instrumentation.Operation
/-!
# Which lines survive instrumentation

A line can be marked many times in one method, and each time its record may be retracted and made
again. Only the last marker counts: `ClassPass.instrument_survivors` says that a marked line has a
record after the method unless the events after its last marker (`Cleanup.lastBody?`) are cleanup
code, that lines without marker are as they were, and that the outcome of the method tells which
marked lines have a record and which have none.

The proof walks the method with the segment that is open. `MethodPass.Follows` is what holds between
two events: the store is reachable, the current line is that of the open segment, and the filters
follow it. Each event has a step lemma that says which records it leaves, and
`MethodPass.containsLine_finish` sums them up over the events that are still to come.
-/

set_option autoImplicit false
set_option relaxedAutoImplicit false

namespace JvmCoverage

def Instruction.isMarker : Instruction → Bool
  | .marker _ => true
  | _ => false

theorem Instruction.eq_marker_or (instruction : Instruction) :
    (∃ line, instruction = .marker line) ∨ instruction.isMarker = false := by
  cases instruction with
  | marker line => exact .inl ⟨line, rfl⟩
  | _ => exact .inr rfl

theorem Instruction.ne_marker {instruction : Instruction} (hmarker : instruction.isMarker = false)
    (line : UInt32) : instruction ≠ .marker line := fun heq ↦ by
  rw [heq] at hmarker
  cases hmarker

/-- The line that a retraction is about. -/
def Retraction.line : Retraction → UInt32
  | dropLine line | dropLastJump line => line

namespace Cleanup

/-! ### The last segment of a line -/

/-- The events before the next marker, or before the end of the method. -/
def bodyOf (instructions : List Instruction) : List Instruction :=
  instructions.takeWhile (!·.isMarker)

theorem bodyOf_cons {instruction : Instruction} (hmarker : instruction.isMarker = false)
    (rest : List Instruction) : bodyOf (instruction :: rest) = instruction :: bodyOf rest := by
  simp [bodyOf, hmarker]

/-- The events between the last marker of a line and the next marker or the end of the method. -/
def lastBody? (line : UInt32) : List Instruction → Option (List Instruction)
  | [] => none
  | instruction :: rest =>
    (lastBody? line rest).or (if instruction = .marker line then some (bodyOf rest) else none)

theorem isSome_lastBody? {line : UInt32} {instructions : List Instruction}
    (hmarked : .marker line ∈ instructions) : ∃ body, lastBody? line instructions = some body := by
  induction instructions with
  | nil => exact absurd hmarked List.not_mem_nil
  | cons instruction rest ih =>
    rw [lastBody?]
    by_cases hrest : .marker line ∈ rest
    · obtain ⟨body, hbody⟩ := ih hrest
      exact ⟨body, by rw [hbody, Option.some_or]⟩
    · have hfirst : instruction = .marker line :=
        ((List.mem_cons.mp hmarked).resolve_right hrest).symm
      rw [if_pos hfirst]
      rcases lastBody? line rest with _ | body
      · exact ⟨bodyOf rest, rfl⟩
      · exact ⟨body, rfl⟩

theorem lastBody?_append (before : List Instruction) {line : UInt32} {after : List Instruction}
    (hlast : .marker line ∉ after) :
    lastBody? line (before ++ .marker line :: after) = some (bodyOf after) := by
  have hnone (instructions : List Instruction) (hunmarked : .marker line ∉ instructions) :
      lastBody? line instructions = none := by
    induction instructions with
    | nil => rfl
    | cons instruction rest ih =>
      rw [List.mem_cons, not_or] at hunmarked
      rw [lastBody?, ih hunmarked.2, if_neg (Ne.symm hunmarked.1), Option.or_none]
  induction before with
  | nil => rw [List.nil_append, lastBody?, hnone after hlast, if_pos rfl, Option.none_or]
  | cons instruction rest ih => rw [List.cons_append, lastBody?, ih, Option.some_or]

/-! ### The filters of a method -/

theorem Progress.line_of_retractable? {progress : Progress} {line : UInt32}
    (hline : progress.retractable? = some line) : progress.line = some line := by
  unfold retractable? at hline
  split_ifs at hline with haccepting
  exact hline

theorem Progress.line_of_mem_advance {progress : Progress} {letter : Letter} {stage : Stage}
    {call : Retraction} (hcall : call ∈ (progress.advance letter stage).2) :
    progress.line = some call.line := by
  unfold advance at hcall
  split at hcall
  · exact absurd hcall List.not_mem_nil
  · cases hline : progress.line with
    | none => simp [hline] at hcall
    | some line =>
      simp only [hline, List.mem_replicate] at hcall
      rw [hcall.2, Retraction.line]
  · exact absurd hcall List.not_mem_nil

theorem Progress.line_of_mem_read {progress : Progress} {letter? : Option Letter}
    {call : Retraction} (hcall : call ∈ (progress.read letter?).2) :
    progress.line = some call.line := by
  unfold read at hcall
  split at hcall
  · exact absurd hcall List.not_mem_nil
  · split at hcall
    · exact absurd hcall List.not_mem_nil
    · exact line_of_mem_advance hcall

/-- The end of a method retracts the line that is open or nothing. -/
theorem Progress.calls_finish (progress : Progress) :
    (progress.step .finish).2 = progress.retractable?.toList.map .dropLine := by
  unfold step
  cases progress.retractable? <;> rfl

/-- Whatever the recognizer retracts is on the line that is open. -/
theorem Progress.line_of_mem_step {progress : Progress} {signal : Signal} {call : Retraction}
    (hcall : call ∈ (progress.step signal).2) : progress.line = some call.line := by
  have hdropped (hmem : call ∈ progress.retractable?.toList.map .dropLine) :
      progress.line = some call.line := by
    obtain ⟨line, hline, rfl⟩ := List.mem_map.mp hmem
    exact line_of_retractable? (Option.mem_toList.mp hline)
  cases signal with
  | line next => exact hdropped hcall
  | finish => exact hdropped (progress.calls_finish ▸ hcall)
  | access | jump | call | plain | other => exact line_of_mem_read hcall

theorem applicable_iff (method : MethodInfo) :
    filter.applicable method = true ↔ method.classVersion = 0 ∨ 51 ≤ method.classVersion :=
  Bool.or_eq_true_iff.trans (or_congr decide_eq_true_iff decide_eq_true_iff)

/-- A class file of a version that is known and too old is not watched. -/
theorem applicable_eq_false {method : MethodInfo}
    (hversion : 1 ≤ method.classVersion ∧ method.classVersion ≤ 50) :
    filter.applicable method = false := by
  rw [← Bool.not_eq_true, applicable_iff, not_or]
  constructor
  · intro hunknown
    rw [hunknown] at hversion
    exact absurd hversion.1 (by decide)
  · exact fun hlate ↦ absurd (UInt16.le_trans hlate hversion.2) (by decide)

/-- The filters of a method: the cleanup filter, which follows the open segment, or none. -/
inductive Watches : Bool → FilterChain Retraction → Option Segment → Prop
  | cleanup {progress : Progress} {open? : Option Segment} (hfollows : progress.Follows open?) :
    Watches true (chainAt progress) open?
  | nothing (open? : Option Segment) : Watches false {} open?

/-- The lines that are retracted when a segment closes, with the cleanup filter or without it. -/
def retractedBy (active : Bool) (segment : Segment) : List UInt32 :=
  if active then segment.retracted else []

theorem mem_retractedBy_iff (active : Bool) (segment : Segment) (line : UInt32) :
    line ∈ retractedBy active segment ↔
      active = true ∧ IsCleanup segment.body ∧ segment.line = line := by
  unfold retractedBy Segment.retracted
  split_ifs with hactive hcleanup
  · simp [hactive, hcleanup, eq_comm]
  · simp [hcleanup]
  · simp [hactive]

namespace Watches

variable {active : Bool} {chain : FilterChain Retraction} {open? : Option Segment}

theorem deliver_line (hwatches : Watches active chain open?) (line : UInt32) :
    Watches active (chain.deliver (.line line)).1 (some { line }) ∧
      droppedLines (chain.deliver (.line line)).2 = open?.elim [] (retractedBy active) := by
  rcases hwatches with hfollows | open?
  · rw [deliver_chainAt]
    refine ⟨.cleanup (Progress.follows_line _ line), ?_⟩
    rw [Progress.droppedLines_line, Progress.toList_retractable? hfollows]
    rfl
  · refine ⟨.nothing _, ?_⟩
    cases open? <;> rfl

theorem deliver_instruction (hwatches : Watches active chain open?) {instruction : Instruction}
    (hmarker : instruction.isMarker = false) :
    Watches active (chain.deliver instruction.signal).1 (open?.map (·.extend instruction)) ∧
      droppedLines (chain.deliver instruction.signal).2 = [] := by
  rcases hwatches with @⟨progress, _, hfollows⟩ | open?
  · have hstep : progress.step instruction.signal = progress.read instruction.signal.letter? := by
      cases instruction with
      | marker line => cases hmarker
      | _ => rfl
    rw [deliver_chainAt, hstep]
    exact ⟨.cleanup (Progress.follows_read hfollows instruction), progress.droppedLines_read _⟩
  · exact ⟨.nothing _, rfl⟩

theorem droppedLines_finish (hwatches : Watches active chain open?) :
    droppedLines (chain.deliver .finish).2 = open?.elim [] (retractedBy active) := by
  rcases hwatches with hfollows | open?
  · rw [deliver_chainAt, Progress.droppedLines_finish, Progress.toList_retractable? hfollows]
    rfl
  · cases open? <;> rfl

/-- Nothing is retracted of a line that is not open. -/
theorem line_of_mem (hwatches : Watches active chain open?) {signal : Signal} {call : Retraction}
    (hcall : call ∈ (chain.deliver signal).2) : open?.map Segment.line = some call.line := by
  rcases hwatches with hfollows | open?
  · rw [deliver_chainAt] at hcall
    have hline := Progress.line_of_mem_step hcall
    rcases open? with _ | segment
    · rw [show _ = none from hfollows] at hline
      cases hline
    · rw [hfollows.1] at hline
      exact hline
  · exact absurd hcall List.not_mem_nil

end Watches

end Cleanup

open Cleanup (bodyOf lastBody? IsCleanup Segment Watches retractedBy droppedLines)

/-! ### What retractions leave -/

namespace ClassStore

variable {store : ClassStore}

theorem containsLine_retract (hstore : store.WellFormed) (call : Retraction) (line : UInt32) :
    (store.retract call).containsLine line = true ↔
      store.containsLine line = true ∧ call ≠ .dropLine line := by
  rcases call with dropped | dropped
  · rw [retract, containsLine_eq, containsLine_eq, line?_removeLine hstore]
    split_ifs with hline
    · simp [hline]
    · simp [Ne.symm hline]
  · rw [retract, containsLine_eq, containsLine_eq, line?_dropLastJump hstore]
    split_ifs with hline
    · simp
    · simp

theorem containsLine_retractAll (hstore : store.Reachable) (calls : List Retraction)
    (line : UInt32) :
    (store.retractAll calls).containsLine line = true ↔
      store.containsLine line = true ∧ line ∉ droppedLines calls := by
  induction calls generalizing store with
  | nil => simp [retractAll, droppedLines]
  | cons call rest ih =>
    refine (ih (hstore.retract call)).trans ?_
    rw [containsLine_retract hstore.wellFormed]
    rcases call with dropped | dropped
    · have hdropped : droppedLines (.dropLine dropped :: rest) = dropped :: droppedLines rest := rfl
      simp [hdropped, and_assoc, @eq_comm _ dropped line]
    · simp [droppedLines, Cleanup.droppedLine?]

theorem line?_retractAll (hstore : store.Reachable) {calls : List Retraction} {line : UInt32}
    (hcalls : ∀ call ∈ calls, call.line ≠ line) :
    (store.retractAll calls).line? line = store.line? line := by
  induction calls generalizing store with
  | nil => rfl
  | cons call rest ih =>
    have hother : line ≠ call.line := (hcalls call List.mem_cons_self).symm
    refine (ih (hstore.retract call) fun other hmem ↦
      hcalls other (List.mem_cons_of_mem _ hmem)).trans ?_
    rcases call with dropped | dropped
    · exact (line?_removeLine hstore.wellFormed dropped line).trans (if_neg hother)
    · exact (line?_dropLastJump hstore.wellFormed dropped line).trans (if_neg hother)

end ClassStore

/-! ### One event -/

namespace MethodPass

/-- Between two events: the store is reachable, the current line is that of the open segment, and
the filters follow that segment. -/
structure Follows (pass : MethodPass) (active : Bool) (open? : Option Segment) : Prop where
  reachable : pass.store.Reachable
  currentLine_eq : pass.currentLine = open?.map Segment.line
  watches : Watches active pass.filters open?

variable {pass : MethodPass} {active : Bool} {open? : Option Segment}

theorem visit_eq {instruction : Instruction} (hmarker : instruction.isMarker = false) :
    pass.visit instruction = (pass.record instruction).deliver instruction.signal := by
  cases instruction with
  | marker line => cases hmarker
  | _ => rfl

theorem filters_record (pass : MethodPass) (instruction : Instruction) :
    (pass.record instruction).filters = pass.filters := by
  rw [record_eq]

theorem containsLine_deliver (hstore : pass.store.Reachable) (signal : Signal) (line : UInt32) :
    (pass.deliver signal).store.containsLine line = true ↔
      pass.store.containsLine line = true ∧
        line ∉ droppedLines (pass.filters.deliver signal).2 :=
  ClassStore.containsLine_retractAll hstore _ line

/-- The segment that was open is closed before the record of the new line is made. -/
theorem Follows.visit_marker (hpass : pass.Follows active open?) (line : UInt32) :
    (pass.visit (.marker line)).Follows active (some { line }) ∧
      ∀ other, (pass.visit (.marker line)).store.containsLine other = true ↔
        other = line ∨
          pass.store.containsLine other = true ∧ other ∉ open?.elim [] (retractedBy active) := by
  obtain ⟨hwatches, hdropped⟩ := hpass.watches.deliver_line line
  have hclosed := reachable_deliver hpass.reachable (.line line)
  refine ⟨⟨hclosed.ensureLine line pass.signature, rfl, hwatches⟩, fun other ↦ ?_⟩
  rw [← hdropped, ← containsLine_deliver hpass.reachable]
  show ((pass.deliver (.line line)).store.ensureLine line pass.signature).containsLine other = true
    ↔ _
  rw [ClassStore.containsLine_eq, ClassStore.line?_ensureLine hclosed.wellFormed]
  split_ifs with hline
  · simp [hline]
  · simp [hline, ClassStore.containsLine_eq]

/-- Within a segment no record is made and none is retracted. -/
theorem Follows.visit_instruction (hpass : pass.Follows active open?) {instruction : Instruction}
    (hmarker : instruction.isMarker = false) :
    (pass.visit instruction).Follows active (open?.map (·.extend instruction)) ∧
      ∀ line, (pass.visit instruction).store.containsLine line = true ↔
        pass.store.containsLine line = true := by
  have hdeclared := pass.declared_record instruction
  have hrecorded := hdeclared.reachable hpass.reachable
  obtain ⟨hwatches, hdropped⟩ := hpass.watches.deliver_instruction hmarker
  rw [visit_eq hmarker]
  refine ⟨⟨reachable_deliver hrecorded _, ?_, ?_⟩, fun line ↦ ?_⟩
  · have hcurrent : (pass.record instruction).currentLine = pass.currentLine := by rw [record_eq]
    refine hcurrent.trans (hpass.currentLine_eq.trans ?_)
    cases open? <;> rfl
  · rw [← filters_record pass instruction] at hwatches
    exact hwatches
  · rw [containsLine_deliver hrecorded, filters_record, hdropped,
      hdeclared.containsLine_eq hpass.reachable.wellFormed]
    simp

/-- An event changes records of the open line and of the line that it marks, and no others. -/
theorem Follows.line?_visit (hpass : pass.Follows active open?) {instruction : Instruction}
    {line : UInt32} (hopen : open?.map Segment.line ≠ some line)
    (hmarked : instruction ≠ .marker line) :
    (pass.visit instruction).store.line? line = pass.store.line? line := by
  have hcalls {signal : Signal} (call : Retraction)
      (hcall : call ∈ (pass.filters.deliver signal).2) : call.line ≠ line := fun heq ↦
    hopen (heq ▸ hpass.watches.line_of_mem hcall)
  obtain ⟨other, rfl⟩ | hmarker := instruction.eq_marker_or
  · have hclosed := reachable_deliver hpass.reachable (.line other)
    have hother : line ≠ other := fun heq ↦ hmarked (heq ▸ rfl)
    refine (ClassStore.line?_ensureLine hclosed.wellFormed other _ line).trans ?_
    rw [if_neg hother]
    exact ClassStore.line?_retractAll hpass.reachable hcalls
  · have hdeclared := pass.declared_record instruction
    rw [visit_eq hmarker]
    refine (ClassStore.line?_retractAll (hdeclared.reachable hpass.reachable) ?_).trans ?_
    · rw [filters_record]
      exact hcalls
    · exact hdeclared.line?_eq hpass.reachable.wellFormed (hpass.currentLine_eq ▸ hopen)

/-! ### A whole method -/

/-- The line has a record at the end unless its last segment is cleanup code; when no marker of the
line is to come, that segment is the open one or lies behind. -/
theorem Follows.containsLine_finish (hpass : pass.Follows active open?)
    (instructions : List Instruction) (line : UInt32) :
    (pass.visitAll instructions).finish.1.containsLine line = true ↔
      match lastBody? line instructions with
      | some body => ¬ (active = true ∧ IsCleanup body)
      | none => pass.store.containsLine line = true ∧ ∀ segment, open? = some segment →
        segment.line = line →
          ¬ (active = true ∧ IsCleanup (segment.body ++ bodyOf instructions)) := by
  induction instructions generalizing pass open? with
  | nil =>
    refine (containsLine_deliver hpass.reachable .finish line).trans ?_
    rw [hpass.watches.droppedLines_finish]
    refine and_congr_right fun _ ↦ ?_
    rcases open? with _ | segment
    · simp
    · simp [Cleanup.mem_retractedBy_iff, bodyOf]
      tauto
  | cons instruction rest ih =>
    rw [lastBody?]
    obtain ⟨other, rfl⟩ | hmarker := instruction.eq_marker_or
    · obtain ⟨hnext, hcontains⟩ := hpass.visit_marker other
      refine (ih hnext).trans ?_
      have hbody : bodyOf (.marker other :: rest) = [] := rfl
      rcases lastBody? line rest with _ | body
      · rcases eq_or_ne other line with rfl | hline
        · simp [hcontains]
        · rcases open? with _ | segment
          · simp [hline, hcontains, Ne.symm hline]
          · simp [hline, hcontains, Ne.symm hline, hbody, Cleanup.mem_retractedBy_iff]
            tauto
      · rfl
    · obtain ⟨hnext, hcontains⟩ := hpass.visit_instruction hmarker
      refine (ih hnext).trans ?_
      rw [if_neg (Instruction.ne_marker hmarker line), Option.or_none]
      rcases lastBody? line rest with _ | body
      · rcases open? with _ | segment
        · simp [hcontains]
        · simp [hcontains, Cleanup.bodyOf_cons hmarker, Segment.extend]
      · rfl

/-- A line that is neither open nor marked keeps its record. -/
theorem Follows.line?_finish (hpass : pass.Follows active open?) {instructions : List Instruction}
    {line : UInt32} (hopen : open?.map Segment.line ≠ some line)
    (hmarked : .marker line ∉ instructions) :
    (pass.visitAll instructions).finish.1.line? line = pass.store.line? line := by
  induction instructions generalizing pass open? with
  | nil =>
    refine ClassStore.line?_retractAll hpass.reachable fun call hcall heq ↦ hopen ?_
    exact heq ▸ hpass.watches.line_of_mem hcall
  | cons instruction rest ih =>
    rw [List.mem_cons, not_or] at hmarked
    have hother : instruction ≠ .marker line := Ne.symm hmarked.1
    rw [← hpass.line?_visit hopen hother]
    obtain ⟨other, rfl⟩ | hmarker := instruction.eq_marker_or
    · refine ih (hpass.visit_marker other).1 (fun heq ↦ hother ?_) hmarked.2
      rw [Option.map_some, Option.some_inj] at heq
      exact congrArg Instruction.marker heq
    · refine ih (hpass.visit_instruction hmarker).1 ?_ hmarked.2
      rcases open? with _ | segment
      · exact hopen
      · exact hopen

theorem mem_marked_visit (pass : MethodPass) (instruction : Instruction) (line : UInt32) :
    line ∈ (pass.visit instruction).marked ↔ line ∈ pass.marked ∨ .marker line = instruction := by
  obtain ⟨other, rfl⟩ | hmarker := instruction.eq_marker_or
  · show line ∈ pass.marked.insert other ↔ _
    simp [or_comm, @eq_comm _ line other]
  · have hsame : (pass.visit instruction).marked = pass.marked := by
      rw [visit_eq hmarker, record_eq]
      rfl
    rw [hsame, or_iff_left (Instruction.ne_marker hmarker line).symm]

theorem mem_marked_visitAll (pass : MethodPass) (instructions : List Instruction) (line : UInt32) :
    line ∈ (pass.visitAll instructions).marked ↔
      line ∈ pass.marked ∨ .marker line ∈ instructions := by
  induction instructions generalizing pass with
  | nil => simp [visitAll]
  | cons instruction rest ih =>
    refine (ih (pass.visit instruction)).trans ?_
    rw [mem_marked_visit, or_assoc, List.mem_cons]

/-- A method is watched by the cleanup filter or by none. -/
theorem filters_start (store : ClassStore) (settings : Settings) (method : MethodInfo) :
    (start store settings method).filters =
      if settings.filters.tryWithResources && Cleanup.filter.applicable method then
        Cleanup.chainAt {}
      else {} := by
  show (FilterChain.ofSettings settings.filters).forMethod method = _
  unfold FilterChain.ofSettings
  rcases settings.filters.tryWithResources
  · rfl
  · rw [if_pos rfl, Bool.true_and]
    split_ifs with happlicable <;>
      simp [FilterChain.ofList, FilterChain.forMethod, RunningFilter.start, happlicable]
    rfl

theorem follows_start {store : ClassStore} (hstore : store.Reachable) (settings : Settings)
    (method : MethodInfo) :
    (start store settings method).Follows
      (settings.filters.tryWithResources && Cleanup.filter.applicable method) none := by
  refine ⟨hstore, rfl, ?_⟩
  rw [filters_start]
  rcases settings.filters.tryWithResources && Cleanup.filter.applicable method
  · exact .nothing none
  · exact .cleanup rfl

end MethodPass

/-! ### What the outcome tells -/

/-- The outcome parts the marked lines into those that have a record in the store and those that
have none. -/
structure MethodOutcome.Parts (outcome : MethodOutcome) (instructions : List Instruction)
    (store : ClassStore) : Prop where
  lines_ascending : outcome.lines.Pairwise (· < ·)
  retracted_ascending : outcome.retracted.Pairwise (· < ·)
  mem_lines_iff : ∀ line, line ∈ outcome.lines ↔
    .marker line ∈ instructions ∧ store.containsLine line = true
  mem_retracted_iff : ∀ line, line ∈ outcome.retracted ↔
    .marker line ∈ instructions ∧ store.containsLine line = false
  disjoint : outcome.lines.Disjoint outcome.retracted
  mem_either_iff : ∀ line, line ∈ outcome.lines ∨ line ∈ outcome.retracted ↔
    .marker line ∈ instructions

theorem MethodPass.parts_outcome {pass : MethodPass} {instructions : List Instruction}
    (hmarked : ∀ line, line ∈ pass.marked ↔ .marker line ∈ instructions) :
    pass.outcome.Parts instructions pass.store := by
  have hascending : pass.marked.toList.Pairwise (· < ·) :=
    Std.ExtTreeSet.ordered_toList.imp Std.compare_eq_lt.mp
  have hlines (line : UInt32) : line ∈ pass.outcome.lines ↔
      .marker line ∈ instructions ∧ pass.store.containsLine line = true := by
    simp [outcome, hmarked]
  have hretracted (line : UInt32) : line ∈ pass.outcome.retracted ↔
      .marker line ∈ instructions ∧ pass.store.containsLine line = false := by
    simp [outcome, hmarked]
  refine ⟨hascending.filter _, hascending.filter _, hlines, hretracted, ?_, fun line ↦ ?_⟩
  · intro line hline hgone
    have hcontains := ((hlines line).mp hline).2
    rw [((hretracted line).mp hgone).2] at hcontains
    cases hcontains
  · rw [hlines, hretracted, ← and_or_left]
    rcases pass.store.containsLine line <;> simp

namespace ClassPass

/-- After a method that the cleanup filter watches, a marked line has a record unless the events
after its last marker are cleanup code. After any other method all marked lines have one. Lines
without marker are as they were, and the outcome tells which marked lines have a record. -/
theorem instrument_survivors {pass : ClassPass} (hstore : pass.store.Reachable)
    (method : MethodInfo) (instructions : List Instruction) :
    (pass.settings.filters.tryWithResources = true →
      (method.classVersion = 0 ∨ 51 ≤ method.classVersion) →
      ∀ (before : List Instruction) (line : UInt32) (after : List Instruction),
        instructions = before ++ .marker line :: after → .marker line ∉ after →
        ((pass.instrument method instructions).1.store.containsLine line = true ↔
          ¬ IsCleanup (bodyOf after))) ∧
    (pass.settings.filters.tryWithResources = false ∨
        (1 ≤ method.classVersion ∧ method.classVersion ≤ 50) →
      (∀ line, .marker line ∈ instructions →
        (pass.instrument method instructions).1.store.containsLine line = true) ∧
      (pass.instrument method instructions).2.retracted = []) ∧
    (∀ line, .marker line ∉ instructions →
      (pass.instrument method instructions).1.store.line? line = pass.store.line? line) ∧
    (pass.instrument method instructions).2.Parts instructions
      (pass.instrument method instructions).1.store := by
  have hstart := MethodPass.follows_start hstore pass.settings method
  have hfinish (line : UInt32) := hstart.containsLine_finish instructions line
  have hparts : (pass.instrument method instructions).2.Parts instructions
      (pass.instrument method instructions).1.store :=
    MethodPass.parts_outcome fun line ↦ by
      refine (MethodPass.mem_marked_visitAll (pass.beginMethod method) instructions line).trans ?_
      exact or_iff_right Std.ExtTreeSet.not_mem_empty
  refine ⟨fun henabled hversion before line after hsplit hlast ↦ ?_, fun hidle ↦ ?_,
    fun line hunmarked ↦ hstart.line?_finish (by simp) hunmarked, hparts⟩
  · have hactive : Cleanup.filter.applicable method = true :=
      (Cleanup.applicable_iff method).mpr hversion
    refine (hfinish line).trans ?_
    rw [hsplit, Cleanup.lastBody?_append before hlast, henabled, hactive]
    simp
  · have hinactive : (pass.settings.filters.tryWithResources &&
        Cleanup.filter.applicable method) = false := by
      rw [Bool.and_eq_false_iff]
      exact hidle.imp_right Cleanup.applicable_eq_false
    have hcontains (line : UInt32) (hmarked : .marker line ∈ instructions) :
        (pass.instrument method instructions).1.store.containsLine line = true := by
      obtain ⟨body, hbody⟩ := Cleanup.isSome_lastBody? hmarked
      refine (hfinish line).mpr ?_
      rw [hbody, hinactive]
      simp
    refine ⟨hcontains, List.eq_nil_iff_forall_not_mem.mpr fun line hline ↦ ?_⟩
    obtain ⟨hmarked, hgone⟩ := (hparts.mem_retracted_iff line).mp hline
    rw [hcontains line hmarked] at hgone
    cases hgone

/-- Line 7 closes a resource and is then marked again, line 8 does nothing but close it, and line 3
belongs to another method. -/
theorem instrument_survivors_of_marked_twice :
    let close : List Instruction := [.aload 1, .invokeVirtual "java/io/Reader" "close" "()V"]
    let instructions : List Instruction :=
      .marker 7 :: close ++ .marker 7 :: .iload 2 :: .marker 8 :: close
    let pass : ClassPass := { store := ({ name := "C" } : ClassStore).ensureLine 3 "<init>()V",
                              settings := {} }
    let method : MethodInfo := ⟨"C", "run", "()V", 52⟩
    pass.store.Reachable ∧
      (pass.instrument method instructions).1.store.containsLine 7 = true ∧
      (pass.instrument method instructions).1.store.containsLine 8 = false ∧
      (pass.instrument method instructions).1.store.line? 3 = pass.store.line? 3 ∧
      (pass.instrument method instructions).2.Parts instructions
        (pass.instrument method instructions).1.store := by
  intro close instructions pass method
  have hstore : pass.store.Reachable := (ClassStore.Reachable.fresh "C").ensureLine 3 "<init>()V"
  obtain ⟨hcleanup, -, hothers, hparts⟩ := instrument_survivors hstore method instructions
  have hwatched := hcleanup rfl (.inr (by decide))
  have hseven := hwatched (.marker 7 :: close) 7 (.iload 2 :: .marker 8 :: close) rfl (by decide)
  have height := hwatched (.marker 7 :: close ++ [.marker 7, .iload 2]) 8 close rfl (by decide)
  refine ⟨hstore, hseven.mpr (by decide), ?_, hothers 3 (by decide), hparts⟩
  rw [← Bool.not_eq_true, height, not_not]
  decide

end ClassPass

end JvmCoverage
