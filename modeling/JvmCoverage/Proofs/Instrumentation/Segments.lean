import JvmCoverage.Proofs.Instrumentation.Records
/-!
# The record of a line, segment by segment

What a method does to the record of a line is the work of the segments of that line, one after
another. Within a segment the events declare branches and the cleanup filter takes null checks back
(`LineRecord.within`). At the end of the segment the record is dropped if the filter is active and
the segment is cleanup code, and otherwise it is what the next segment goes on with
(`afterSegment`). `MethodPass.RunsAt.line?_finish_visitAll` puts the segments together: the record
that a method leaves is a fold over the segments of its line, and the events in between do not
count.
-/

set_option autoImplicit false
set_option relaxedAutoImplicit false

namespace JvmCoverage

open Cleanup (IsCleanup Progress Segment bodyOf chainAt)

namespace Cleanup

/-- The events of each segment of a line, in order. -/
def bodiesOf (line : UInt32) : List Instruction → List (List Instruction)
  | [] => []
  | instruction :: rest =>
    if instruction = .marker line then bodyOf rest :: bodiesOf line rest else bodiesOf line rest

/-- The record of a line is dropped at the end of the segment. -/
def drops (active : Bool) (body : List Instruction) : Bool := active && decide (IsCleanup body)

theorem Progress.follows_readAll {progress : Progress} {segment : Segment}
    (hfollows : progress.Follows (some segment)) (body : List Instruction) :
    (progress.readAll body).Follows (some { segment with body := segment.body ++ body }) := by
  induction body generalizing progress segment with
  | nil =>
    rw [List.append_nil]
    exact hfollows
  | cons instruction rest ih =>
    have hnext := ih (follows_read hfollows instruction)
    simp only [Segment.extend, List.append_assoc, List.singleton_append] at hnext
    exact hnext

/-- The recognizer retracts a line that it has read from its marker on when its events are cleanup
code. -/
theorem Progress.retractable?_readAll_line (line : UInt32) (body : List Instruction) :
    (readAll { line := some line } body).retractable? = some line ↔ IsCleanup body := by
  have hread := toList_retractable? (follows_readAll (follows_line {} line) body)
  rw [Option.elim_some, List.nil_append, Segment.retracted] at hread
  change (readAll { line := some line } body).retractable?.toList = _ at hread
  rw [← Option.mem_toList, hread]
  split_ifs with hcleanup <;> simp [hcleanup]

end Cleanup

open Cleanup (bodiesOf)

/-! ### Records -/

namespace LineRecord

/-- The record of the open line after further events on it: each may declare a branch, and when the
cleanup filter is active it takes back the null checks that are done with. -/
def within (active : Bool) : Progress → List Instruction → LineRecord → LineRecord
  | _, [], record => record
  | progress, instruction :: rest, record =>
    within active (progress.read instruction.signal.letter?).1 rest
      ((record.declare instruction).dropJumps
        (if active then progress.discharged instruction.signal.letter? else 0))

end LineRecord

/-- The record of a line after one of its segments, which makes it when there is none. -/
def afterSegment (active : Bool) (line : UInt32) (signature : String) (found? : Option LineRecord)
    (body : List Instruction) : Option LineRecord :=
  if Cleanup.drops active body then none
  else some ((found?.getD { line, signature }).within active { line := some line } body)

/-! ### Passes -/

namespace MethodPass

theorem visitAll_append (pass : MethodPass) (first second : List Instruction) :
    pass.visitAll (first ++ second) = (pass.visitAll first).visitAll second :=
  List.foldl_append

namespace RunsAt

variable {pass : MethodPass} {active : Bool} {progress : Progress} {instruction : Instruction}

/-- Within a segment only the record of the open line changes, when branches are counted. -/
theorem line?_visit_within (hpass : pass.RunsAt active progress)
    (hcounts : pass.settings.countsBranches = true) (hmarker : instruction.isMarker = false)
    (line : UInt32) :
    (pass.visit instruction).store.line? line =
      if progress.line = some line then
        (pass.store.line? line).map (·.within active progress [instruction])
      else pass.store.line? line := by
  split_ifs with hline
  · have hdeclaring : pass.declaring line instruction = (·.declare instruction) :=
      funext fun record ↦ if_pos ⟨hpass.currentLine_eq.trans hline, hcounts⟩
    rw [hpass.line?_visit hmarker hline, hdeclaring]
    rfl
  · exact hpass.line?_visit_of_ne hmarker hline

/-- At the end of a segment the filter drops the record of its line or does nothing. -/
theorem line?_close (hpass : pass.RunsAt active progress) {signal : Signal}
    (hsignal : (progress.step signal).2 = progress.retractable?.toList.map .dropLine)
    (line : UInt32) :
    (pass.deliver signal).store.line? line =
      if active ∧ progress.retractable? = some line then none else pass.store.line? line := by
  change (pass.store.retractAll (pass.filters.deliver signal).2).line? line = _
  rw [hpass.deliver_eq]
  cases active with
  | false =>
    rw [if_neg Bool.false_ne_true, if_neg fun hboth ↦ Bool.false_ne_true hboth.1]
    rfl
  | true =>
    rw [if_pos rfl, hsignal]
    cases hdropped : progress.retractable? with
    | none =>
      rw [if_neg fun hboth ↦ Option.some_ne_none _ hboth.2.symm]
      rfl
    | some dropped =>
      refine (ClassStore.line?_removeLine hpass.reachable.wellFormed dropped line).trans ?_
      simp [eq_comm]

/-- A marker closes the segment that is open, and makes a record of its line if there is none. -/
theorem line?_visit_marker (hpass : pass.RunsAt active progress) (opened line : UInt32) :
    (pass.visit (.marker opened)).store.line? line =
      if line = opened then
        some (((pass.deliver (.line opened)).store.line? line).getD
          { line, signature := pass.signature })
      else (pass.deliver (.line opened)).store.line? line := by
  refine (ClassStore.line?_ensureLine (reachable_deliver hpass.reachable _).wellFormed opened _
    line).trans ?_
  split_ifs with hline
  · rw [hline]
    rfl
  · rfl

/-- Over the rest of a segment, the record of the open line changes as its events say. -/
theorem line?_visitAll (hpass : pass.RunsAt active progress)
    (hcounts : pass.settings.countsBranches = true) {line : UInt32} {body : List Instruction}
    (hbody : ∀ instruction ∈ body, instruction.isMarker = false)
    (hline : progress.line = some line) :
    (pass.visitAll body).RunsAt active (progress.readAll body) ∧
      (pass.visitAll body).store.line? line =
        (pass.store.line? line).map (·.within active progress body) := by
  induction body generalizing pass progress with
  | nil =>
    have hwithin : LineRecord.within active progress [] = id := rfl
    exact ⟨hpass, by rw [hwithin, Option.map_id]; rfl⟩
  | cons instruction rest ih =>
    obtain ⟨hmarker, hrest⟩ := List.forall_mem_cons.mp hbody
    have hnext := hpass.visit instruction
    rw [progress.step_signal hmarker] at hnext
    have hsettings := congrArg Settings.countsBranches (settings_visit pass instruction)
    obtain ⟨hlast, hrecord⟩ :=
      ih hnext (hsettings.trans hcounts) hrest ((progress.line_read _).trans hline)
    refine ⟨hlast, hrecord.trans ?_⟩
    rw [hpass.line?_visit_within hcounts hmarker, if_pos hline, Option.map_map]
    rfl

end RunsAt

/-- The record of a line at the end of the segment that is open, whose events are still to come. -/
def closedAfter (active : Bool) (line : UInt32) (progress : Progress) (body : List Instruction)
    (found? : Option LineRecord) : Option LineRecord :=
  if progress.line = some line then
    if active ∧ (progress.readAll body).retractable? = some line then none
    else found?.map (·.within active progress body)
  else found?

theorem closedAfter_nil (active : Bool) (line : UInt32) (progress : Progress)
    (found? : Option LineRecord) : closedAfter active line progress [] found? =
      if active ∧ progress.retractable? = some line then none else found? := by
  have hread : progress.readAll [] = progress := rfl
  have hwithin : LineRecord.within active progress [] = id := rfl
  rw [closedAfter, hread, hwithin, Option.map_id, id]
  split_ifs with hline hclosed hclosed
  · rfl
  · rfl
  · exact absurd (Progress.line_of_retractable? hclosed.2) hline
  · rfl

theorem closedAfter_line (active : Bool) (line : UInt32) (signature : String)
    (found? : Option LineRecord) (body : List Instruction) :
    closedAfter active line { line := some line } body
        (some (found?.getD { line, signature })) =
      afterSegment active line signature found? body := by
  simp only [closedAfter, afterSegment, Cleanup.drops, if_true, Option.map_some,
    Progress.retractable?_readAll_line, Bool.and_eq_true, decide_eq_true_eq]

theorem signature_visit (pass : MethodPass) (instruction : Instruction) :
    (pass.visit instruction).signature = pass.signature := by
  obtain ⟨opened, rfl⟩ | hmarker := instruction.eq_marker_or
  · rfl
  · rw [visit_eq hmarker, record_eq]
    rfl

/-- The record that the rest of a method leaves of a line. -/
theorem RunsAt.line?_finish_visitAll {pass : MethodPass} {active : Bool} {progress : Progress}
    (hpass : pass.RunsAt active progress) (hcounts : pass.settings.countsBranches = true)
    (instructions : List Instruction) (line : UInt32) :
    (pass.visitAll instructions).finish.1.line? line =
      (bodiesOf line instructions).foldl (afterSegment active line pass.signature)
        (closedAfter active line progress (bodyOf instructions) (pass.store.line? line)) := by
  induction instructions generalizing pass progress with
  | nil =>
    refine (hpass.line?_close progress.calls_finish line).trans ?_
    exact (closedAfter_nil active line progress _).symm
  | cons instruction rest ih =>
    have hsettings := congrArg Settings.countsBranches (settings_visit pass instruction)
    refine (ih (hpass.visit instruction) (hsettings.trans hcounts)).trans ?_
    rw [signature_visit]
    obtain ⟨opened, rfl⟩ | hmarker := instruction.eq_marker_or
    · have hbody : bodyOf (.marker opened :: rest) = [] := rfl
      have hopened : (progress.step (Instruction.marker opened).signal).1 =
        { line := some opened } := rfl
      rw [hbody, closedAfter_nil, ← @line?_close _ _ _ hpass (.line opened) rfl line,
        hpass.line?_visit_marker, hopened]
      by_cases hline : line = opened
      · subst hline
        rw [if_pos rfl, closedAfter_line, bodiesOf, if_pos rfl, List.foldl_cons]
      · rw [if_neg hline, bodiesOf, if_neg fun heq ↦ hline (Instruction.marker.inj heq).symm,
          closedAfter, if_neg fun heq ↦ hline (Option.some.inj heq).symm]
    · rw [bodiesOf, if_neg (Instruction.ne_marker hmarker line), Cleanup.bodyOf_cons hmarker,
        progress.step_signal hmarker, hpass.line?_visit_within hcounts hmarker]
      refine congrArg (List.foldl _ · _) ?_
      rw [closedAfter, closedAfter, progress.line_read]
      by_cases hline : progress.line = some line
      · rw [if_pos hline, if_pos hline, if_pos hline, Option.map_map]
        rfl
      · rw [if_neg hline, if_neg hline, if_neg hline]

end MethodPass

end JvmCoverage
