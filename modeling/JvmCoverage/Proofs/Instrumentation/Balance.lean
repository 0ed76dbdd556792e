import JvmCoverage.Proofs.Instrumentation.JumpIds
import JvmCoverage.Proofs.Instrumentation.Segments
import Mathlib.Data.List.DropRight
/-!
# Declared and discharged branches balance

Conditional jumps and switches are declared on the line that is open, and the cleanup filter takes
back the jumps of null checks that it finds to be discharged. It only counts them and takes jumps
from the end of the row, so it relies on being told of every jump after its declaration, and on
forgetting the checks at every event that does not match. Its count must not wrap around
(`Cleanup.FitsCounter`); no method of a class file is long enough for that.

`ClassPass.instrument_balance` says that this is right. The ids of all lines stay positions
(`ClassPass.positional_instrument`). Beyond the branches that it started from, a record has as many
jumps as were declared in its segments without the checks that were discharged there, and all their
switches (`LineRecord.Positional.throughAll_eq`). And what is popped at an event are the records
that the discharged checks themselves were declared under (`MethodPass.BeginsSegment.popped_iff`).
-/

set_option autoImplicit false
set_option relaxedAutoImplicit false

namespace JvmCoverage

open Cleanup (Progress bodiesOf drops dischargedAfter jumpsLeft stageOf ChecksAt Waits
  DischargedBy FitsCounter)

/-- The ids of every line are positions. -/
def ClassStore.Positional (store : ClassStore) : Prop :=
  ∀ line record, store.line? line = some record → record.Positional

namespace Cleanup

/-- The segments of a line since its record was last dropped in the method. -/
def lastBodies (active : Bool) (line : UInt32) (instructions : List Instruction) :
    List (List Instruction) :=
  (bodiesOf line instructions).rtakeWhile (!drops active ·)

/-- How many null checks are discharged in the segments. -/
def dischargedIn (active : Bool) (bodies : List (List Instruction)) : Nat :=
  if active then (bodies.map (dischargedAfter .initial)).sum else 0

theorem dischargedIn_cons (active : Bool) (body : List Instruction)
    (rest : List (List Instruction)) : dischargedIn active (body :: rest) =
      (if active then dischargedAfter .initial body else 0) + dischargedIn active rest := by
  cases active <;> rfl

end Cleanup

open Cleanup (lastBodies dischargedIn)

/-! ### Records -/

section Record

variable {record : LineRecord} {active : Bool}

/-- A branch is at the end of its row when it is declared, and so are the null checks that wait. -/
theorem LineRecord.Positional.within_extended (hpositional : record.Positional)
    {progress : Progress} {body : List Instruction} {jumps : Nat} {keys : List CaseKeys}
    (hpending : progress.pendingChecks.toNat ≤ jumps)
    (hjumps : record.jumps.size + jumps + body.countP Instruction.isConditionalJump ≤ UInt32.size)
    (hswitches : record.switches.size +
      (keys ++ body.filterMap Instruction.switchKeys?).length ≤ UInt32.size) :
    (record.extended jumps keys).within active progress body =
      record.extended
        (jumps + body.countP Instruction.isConditionalJump -
          if active then progress.takenBack body else 0)
        (keys ++ body.filterMap Instruction.switchKeys?) := by
  induction body generalizing progress jumps keys with
  | nil =>
    rw [List.countP_nil, Progress.takenBack, ite_self, List.filterMap_nil, List.append_nil]
    rfl
  | cons instruction rest ih =>
    have hkeys : keys ++ (instruction :: rest).filterMap Instruction.switchKeys? =
        keys ++ instruction.switchKeys?.toList ++ rest.filterMap Instruction.switchKeys? := by
      rw [List.append_assoc]
      cases hkey : instruction.switchKeys? <;> simp [hkey]
    rw [Instruction.countP_isConditionalJump_cons] at hjumps ⊢
    rw [hkeys] at hswitches ⊢
    have hswitch : record.switches.size + (keys ++ instruction.switchKeys?.toList).length ≤
        UInt32.size := by
      rw [List.length_append] at hswitches
      omega
    -- checks that wait or are taken back now have their jumps among the last of the row
    have htaken := progress.pendingChecks_signal_le instruction
    have hdropped : (progress.read instruction.signal.letter?).1.pendingChecks.toNat +
        (if active then progress.discharged instruction.signal.letter? else 0) ≤
          jumps + instruction.isConditionalJump.toNat := by
      split_ifs <;> omega
    rw [LineRecord.within, LineRecord.declare_extended hpositional instruction (by omega) hswitch,
      LineRecord.dropJumps_extended record (by omega), ih (by omega) (by omega) hswitches]
    refine congrArg (record.extended · _) ?_
    rw [Progress.takenBack]
    split_ifs at hdropped ⊢ <;> omega

/-- The row of jumps has what the events declare without what is taken back. -/
theorem LineRecord.Positional.size_jumps_within (hpositional : record.Positional)
    {progress : Progress} {body : List Instruction}
    (hpending : progress.pendingChecks.toNat ≤ record.jumps.size)
    (hroom : record.jumps.size + body.countP Instruction.isConditionalJump ≤ UInt32.size) :
    (record.within active progress body).jumps.size +
        (if active then progress.takenBack body else 0) =
      record.jumps.size + body.countP Instruction.isConditionalJump := by
  induction body generalizing record progress with
  | nil =>
    rw [Progress.takenBack, ite_self]
    rfl
  | cons instruction rest ih =>
    rw [Instruction.countP_isConditionalJump_cons] at hroom ⊢
    have hwaiting := progress.pendingChecks_signal_le instruction
    have hdeclared := LineRecord.size_jumps_declare hpositional instruction (by omega)
    let taken := if active then progress.discharged instruction.signal.letter? else 0
    have htaken : (progress.read instruction.signal.letter?).1.pendingChecks.toNat + taken ≤
        record.jumps.size + instruction.isConditionalJump.toNat := by
      unfold taken
      split_ifs <;> omega
    have hnext : ((record.declare instruction).dropJumps taken).jumps.size + taken =
        record.jumps.size + instruction.isConditionalJump.toNat := by
      rw [LineRecord.size_jumps_dropJumps, hdeclared]
      omega
    have hrest := @ih _ ((hpositional.declare instruction).dropJumps taken)
      (progress.read instruction.signal.letter?).1 (by omega) (by omega)
    have hsplit : (if active then progress.takenBack (instruction :: rest) else 0) = taken +
        if active then (progress.read instruction.signal.letter?).1.takenBack rest else 0 := by
      unfold taken
      split_ifs <;> rfl
    rw [hsplit]
    change (LineRecord.within active _ rest
      ((record.declare instruction).dropJumps taken)).jumps.size + _ = _
    omega

/-- Only a `goto` behind a `close` call takes jumps back, and it takes those that wait. -/
theorem LineRecord.within_singleton (record : LineRecord) (active : Bool) (progress : Progress)
    (instruction : Instruction) :
    record.within active progress [instruction] =
      if active = true ∧ progress.stage = .closed ∧ instruction.signal.letter? = some .goto then
        record.dropJumps progress.pendingChecks.toNat
      else record.declare instruction := by
  change (record.declare instruction).dropJumps
    (if active then progress.discharged instruction.signal.letter? else 0) = _
  split_ifs with hactive hdischarges hdischarges
  · have hnothing : record.declare instruction = record := by
      cases Cleanup.spells_of_letter? hdischarges.2.2
      rfl
    rw [hnothing, Progress.discharged, if_pos hdischarges.2]
  · rw [Progress.discharged, if_neg fun hboth ↦ hdischarges ⟨hactive, hboth⟩, dropJumps_zero]
  · exact absurd hdischarges.1 hactive
  · exact dropJumps_zero _

/-- The record of a line after segments that it survives. -/
def LineRecord.throughAll (record : LineRecord) (active : Bool) (line : UInt32)
    (bodies : List (List Instruction)) : LineRecord :=
  bodies.foldl (fun record body ↦ record.within active { line := some line } body) record

/-- Through its segments, a record gets the branches that they declare without the null checks that
they discharge. -/
theorem LineRecord.Positional.throughAll_extended (hpositional : record.Positional)
    (line : UInt32) {bodies : List (List Instruction)} {jumps : Nat} {keys : List CaseKeys}
    (hfits : ∀ body ∈ bodies, FitsCounter body)
    (hjumps : record.jumps.size + jumps +
      bodies.flatten.countP Instruction.isConditionalJump ≤ UInt32.size)
    (hswitches : record.switches.size +
      (keys ++ bodies.flatten.filterMap Instruction.switchKeys?).length ≤ UInt32.size) :
    ∃ left, left + dischargedIn active bodies =
        jumps + bodies.flatten.countP Instruction.isConditionalJump ∧
      (record.extended jumps keys).throughAll active line bodies =
        record.extended left (keys ++ bodies.flatten.filterMap Instruction.switchKeys?) := by
  induction bodies generalizing jumps keys with
  | nil =>
    refine ⟨jumps, ?_, ?_⟩
    · cases active <;> rfl
    · rw [List.flatten_nil, List.filterMap_nil, List.append_nil]
      rfl
  | cons body rest ih =>
    obtain ⟨hbodyFits, hrestFits⟩ := List.forall_mem_cons.mp hfits
    rw [List.flatten_cons, List.countP_append] at hjumps
    rw [List.flatten_cons, List.filterMap_append, ← List.append_assoc] at hswitches
    have hswitch : record.switches.size +
        (keys ++ body.filterMap Instruction.switchKeys?).length ≤ UInt32.size := by
      rw [List.length_append] at hswitches
      omega
    have hbody : (record.extended jumps keys).within active { line := some line } body =
        record.extended (jumps + body.countP Instruction.isConditionalJump -
          if active then dischargedAfter .initial body else 0)
          (keys ++ body.filterMap Instruction.switchKeys?) := by
      rw [← Progress.takenBack_line line hbodyFits]
      exact hpositional.within_extended (Nat.zero_le jumps) (by omega) hswitch
    have hroom : record.jumps.size + (jumps + body.countP Instruction.isConditionalJump -
        if active then dischargedAfter .initial body else 0) +
          rest.flatten.countP Instruction.isConditionalJump ≤ UInt32.size := by omega
    obtain ⟨left, hleft, hrest⟩ := ih hrestFits hroom hswitches
    have hdischarged := Cleanup.pendingChecks_add_dischargedAfter_le line hbodyFits
    refine ⟨left, ?_, ?_⟩
    · rw [Cleanup.dischargedIn_cons, List.flatten_cons, List.countP_append]
      split_ifs at hleft ⊢ <;> omega
    · rw [List.flatten_cons, List.filterMap_append, ← List.append_assoc, ← hrest, ← hbody]
      rfl

theorem LineRecord.Positional.throughAll_eq (hpositional : record.Positional) (line : UInt32)
    {bodies : List (List Instruction)} (hfits : ∀ body ∈ bodies, FitsCounter body)
    (hjumps : record.jumps.size + bodies.flatten.countP Instruction.isConditionalJump ≤
      UInt32.size)
    (hswitches : record.switches.size +
      (bodies.flatten.filterMap Instruction.switchKeys?).length ≤ UInt32.size) :
    ∃ left, left + dischargedIn active bodies =
        bodies.flatten.countP Instruction.isConditionalJump ∧
      record.throughAll active line bodies =
        record.extended left (bodies.flatten.filterMap Instruction.switchKeys?) := by
  have hthrough := @throughAll_extended record active hpositional line bodies 0 [] hfits hjumps
    hswitches
  rwa [Nat.zero_add, List.nil_append, record.extended_nothing] at hthrough

/-- A line that has no record goes on with a fresh one. -/
theorem getD_foldl_afterSegment (active : Bool) (line : UInt32) (signature : String)
    (found? : Option LineRecord) (bodies : List (List Instruction)) :
    (bodies.foldl (afterSegment active line signature) found?).getD { line, signature } =
      ((if bodies.any (drops active) then none else found?).getD { line, signature }).throughAll
        active line (bodies.rtakeWhile (!drops active ·)) := by
  induction bodies using List.reverseRecOn with
  | nil => rfl
  | append_singleton bodies last ih =>
    rw [List.foldl_append, List.foldl_cons, List.foldl_nil, afterSegment, List.rtakeWhile_concat,
      List.any_append, List.any_cons, List.any_nil, Bool.or_false]
    cases drops active last with
    | true =>
      rw [if_pos rfl, Bool.or_true, if_pos rfl]
      rfl
    | false =>
      rw [if_neg Bool.false_ne_true, ih, Bool.or_false, Bool.not_false, if_pos rfl]
      simp only [LineRecord.throughAll, List.foldl_append, List.foldl_cons, List.foldl_nil,
        Option.getD_some]

end Record

/-! ### Passes -/

namespace MethodPass.RunsAt

variable {pass : MethodPass} {active : Bool} {progress : Progress}

theorem positional_close (hpass : pass.RunsAt active progress)
    (hpositional : pass.store.Positional) {signal : Signal}
    (hsignal : (progress.step signal).2 = progress.retractable?.toList.map .dropLine) :
    (pass.deliver signal).store.Positional := fun line record hrecord ↦ by
  rw [hpass.line?_close hsignal] at hrecord
  split_ifs at hrecord
  exact hpositional line record hrecord

theorem positional_visit (hpass : pass.RunsAt active progress)
    (hpositional : pass.store.Positional) (instruction : Instruction) :
    (pass.visit instruction).store.Positional := fun line record hrecord ↦ by
  obtain ⟨opened, rfl⟩ | hmarker := instruction.eq_marker_or
  · have hclosed : (pass.deliver (.line opened)).store.Positional :=
      hpass.positional_close hpositional rfl
    rw [hpass.line?_visit_marker] at hrecord
    split_ifs at hrecord
    · rw [Option.some_inj] at hrecord
      subst hrecord
      cases hfound : (pass.deliver (.line opened)).store.line? line with
      | none => exact LineRecord.positional_fresh line pass.signature
      | some found => exact hclosed line found hfound
    · exact hclosed line record hrecord
  · by_cases hline : progress.line = some line
    · rw [hpass.line?_visit hmarker hline] at hrecord
      obtain ⟨found, hfound, rfl⟩ := Option.map_eq_some_iff.mp hrecord
      exact (positional_declaring (hpositional line found hfound)).dropJumps _
    · rw [hpass.line?_visit_of_ne hmarker hline] at hrecord
      exact hpositional line record hrecord

/-- Ids stay positions over events. -/
theorem positional_visitAll (hpass : pass.RunsAt active progress)
    (hpositional : pass.store.Positional) (instructions : List Instruction) :
    ∃ last, (pass.visitAll instructions).RunsAt active last ∧
      (pass.visitAll instructions).store.Positional := by
  induction instructions generalizing pass progress with
  | nil => exact ⟨progress, hpass, hpositional⟩
  | cons instruction rest ih =>
    exact ih (hpass.visit instruction) (hpass.positional_visit hpositional instruction)

end MethodPass.RunsAt

namespace MethodPass

/-- A segment of a line begins in a pass that counts branches: the record of the line is there, and
its ids are positions. -/
structure BeginsSegment (pass : MethodPass) (active : Bool) (line : UInt32) (opened : LineRecord) :
    Prop where
  runsAt : pass.RunsAt active { line := some line }
  countsBranches : pass.settings.countsBranches = true
  line?_eq : pass.store.line? line = some opened
  positional : opened.Positional

namespace BeginsSegment

variable {pass : MethodPass} {active : Bool} {line : UInt32} {opened : LineRecord}
  {body : List Instruction}

/-- How long the row of the line is after events of the segment. -/
theorem exists_visitAll (hbegins : pass.BeginsSegment active line opened)
    (hbody : ∀ instruction ∈ body, instruction.isMarker = false) (hfits : FitsCounter body)
    (hroom : opened.jumps.size + body.countP Instruction.isConditionalJump ≤ UInt32.size) :
    ∃ record, (pass.visitAll body).RunsAt active (Progress.readAll { line := some line } body) ∧
      (pass.visitAll body).store.line? line = some record ∧
      record.jumps.size + (if active then dischargedAfter .initial body else 0) =
        opened.jumps.size + body.countP Instruction.isConditionalJump := by
  obtain ⟨hlast, hrecord⟩ := hbegins.runsAt.line?_visitAll hbegins.countsBranches hbody rfl
  rw [hbegins.line?_eq, Option.map_some] at hrecord
  refine ⟨_, hlast, hrecord, ?_⟩
  rw [← Progress.takenBack_line line hfits]
  exact hbegins.positional.size_jumps_within (Nat.zero_le _) hroom

/-- The id of a null check counts the jumps that are left of those before it. -/
theorem declaredJump?_check {first : List Instruction} {check : Instruction}
    (hbegins : pass.BeginsSegment true line opened)
    (hfirst : ∀ instruction ∈ first, instruction.isMarker = false) (hfits : FitsCounter first)
    (hroom : opened.jumps.size + first.countP Instruction.isConditionalJump ≤ UInt32.size)
    (hchecks : ChecksAt (stageOf first) check) :
    (pass.visitAll first).declaredJump? check =
      some (line, UInt32.ofNat (opened.jumps.size + jumpsLeft first)) := by
  obtain ⟨record, hlast, hrecord, hsize⟩ := hbegins.exists_visitAll hfirst hfits hroom
  have hconditional := Cleanup.isConditionalJump_of_checkNull (Cleanup.checksAt_iff.mp hchecks).2
  have hcounts : (pass.visitAll first).settings.countsBranches = true :=
    (congrArg _ (settings_visitAll pass first)).trans hbegins.countsBranches
  refine declaredJump?_eq_some_iff.mpr ⟨⟨hconditional, hcounts⟩,
    hlast.currentLine_eq.trans (Progress.line_readAll _ _), record, hrecord, ?_⟩
  have hle := Cleanup.pendingChecks_add_dischargedAfter_le line hfits
  rw [if_pos rfl] at hsize
  rw [jumpsLeft]
  exact congrArg UInt32.ofNat (by omega)

/-- A null check is declared under the slot that its record gets. -/
theorem declaredJump?_eq_slot_iff {first between : List Instruction} {check : Instruction}
    {slot : Nat} (hbegins : pass.BeginsSegment true line opened)
    (hbody : ∀ instruction ∈ first ++ check :: between, instruction.isMarker = false)
    (hfits : FitsCounter (first ++ check :: between))
    (hroom : opened.jumps.size +
      (first ++ check :: between).countP Instruction.isConditionalJump ≤ UInt32.size)
    (hchecks : ChecksAt (stageOf first) check) (hslot : slot < UInt32.size) :
    (pass.visitAll first).declaredJump? check = some (line, UInt32.ofNat slot) ↔
      opened.jumps.size + jumpsLeft first = slot := by
  have hconditional := Cleanup.isConditionalJump_of_checkNull (Cleanup.checksAt_iff.mp hchecks).2
  rw [List.countP_append, Instruction.countP_isConditionalJump_cons, hconditional,
    Bool.toNat_true] at hroom
  have hleft : jumpsLeft first ≤ first.countP Instruction.isConditionalJump := Nat.sub_le _ _
  rw [hbegins.declaredJump?_check
    (fun instruction hmem ↦ hbody instruction (List.mem_append_left _ hmem)) hfits.of_append
    (by omega) hchecks]
  constructor
  · intro hsame
    have hid := congrArg UInt32.toNat (Prod.mk.inj (Option.some.inj hsame)).2
    rwa [UInt32.toNat_ofNat_of_lt' (by omega), UInt32.toNat_ofNat_of_lt' hslot] at hid
  · rintro rfl
    rfl

/-- A record is popped at an event exactly when it is that of a null check that the event
discharges. -/
theorem popped_iff {instruction : Instruction} (hbegins : pass.BeginsSegment active line opened)
    (hbody : ∀ instruction ∈ body, instruction.isMarker = false)
    (hmarker : instruction.isMarker = false) (hfits : FitsCounter body)
    (hroom : opened.jumps.size + body.countP Instruction.isConditionalJump ≤ UInt32.size) :
    ∃ record later, (pass.visitAll body).store.line? line = some record ∧
      (pass.visitAll (body ++ [instruction])).store.line? line = some later ∧
      ∀ slot jump, record.jumps[slot]? = some jump →
        (later.jumps[slot]? ≠ some jump ↔
          active = true ∧ ∃ first check, DischargedBy first check body instruction ∧
            (pass.visitAll first).declaredJump? check = some (line, UInt32.ofNat slot)) := by
  obtain ⟨record, hlast, hrecord, hsize⟩ := hbegins.exists_visitAll hbody hfits hroom
  have hcounts : (pass.visitAll body).settings.countsBranches = true :=
    (congrArg _ (settings_visitAll pass body)).trans hbegins.countsBranches
  have hlater := hlast.line?_visit_within hcounts hmarker line
  rw [if_pos (Progress.line_readAll _ _), hrecord, Option.map_some, LineRecord.within_singleton,
    Progress.stage_readAll_line] at hlater
  rw [visitAll_append]
  refine ⟨record, _, hrecord, hlater, fun slot jump hjump ↦ ?_⟩
  split_ifs with hdischarges
  · obtain ⟨rfl, hclosed⟩ := hdischarges
    have hslot := (Array.getElem?_eq_some_iff.mp hjump).1
    have hle := Cleanup.pendingChecks_add_dischargedAfter_le line hfits
    have hleft : opened.jumps.size + jumpsLeft body = record.jumps.size := by
      rw [if_pos rfl] at hsize
      rw [jumpsLeft]
      omega
    rw [LineRecord.jumps_dropJumps_ne_iff hjump, ← hleft,
      ← Cleanup.exists_waits_iff line hfits (by omega)]
    have hdeclared (first : List Instruction) (check : Instruction)
        (hdischarged : DischargedBy first check body instruction) :
        (pass.visitAll first).declaredJump? check = some (line, UInt32.ofNat slot) ↔
          opened.jumps.size + jumpsLeft first = slot := by
      obtain ⟨between, rfl, hchecks, -⟩ := hdischarged
      exact hbegins.declaredJump?_eq_slot_iff hbody hfits hroom hchecks (by omega)
    constructor
    · rintro ⟨first, hwaits, hfirst⟩
      obtain ⟨check, hdischarged⟩ := Cleanup.exists_dischargedBy_iff.mpr ⟨hclosed, hwaits⟩
      exact ⟨rfl, first, check, hdischarged, (hdeclared first check hdischarged).mpr hfirst⟩
    · rintro ⟨-, first, check, hdischarged, hid⟩
      exact ⟨first, (Cleanup.exists_dischargedBy_iff.mp ⟨check, hdischarged⟩).2,
        (hdeclared first check hdischarged).mp hid⟩
  · refine iff_of_false (not_not.mpr ?_) ?_
    · exact (LineRecord.GrowsTo.declare record instruction).jump_eq hjump
    · rintro ⟨hactive, first, check, hdischarged, -⟩
      exact hdischarges ⟨hactive, (Cleanup.exists_dischargedBy_iff.mp ⟨check, hdischarged⟩).1⟩

end BeginsSegment

/-- A marker begins a segment, whatever came before. -/
theorem RunsAt.beginsSegment {pass : MethodPass} {active : Bool} {progress : Progress}
    (hpass : pass.RunsAt active progress) (hcounts : pass.settings.countsBranches = true)
    (hpositional : pass.store.Positional) (line : UInt32) :
    ∃ opened, (pass.visit (.marker line)).BeginsSegment active line opened := by
  have hopened := (hpass.line?_visit_marker line line).trans (if_pos rfl)
  exact ⟨_, hpass.visit (.marker line), hcounts, hopened,
    hpass.positional_visit hpositional (.marker line) line _ hopened⟩

end MethodPass

namespace ClassPass

/-- The cleanup filter runs over the method. -/
def watches (pass : ClassPass) (method : MethodInfo) : Bool :=
  pass.settings.filters.tryWithResources && Cleanup.filter.applicable method

/-- The record that the last segments of a line go on with: the one before the method or a fresh one
if there was none, and a fresh one if the record was dropped in the method. -/
def startRecord (pass : ClassPass) (method : MethodInfo) (instructions : List Instruction)
    (line : UInt32) : LineRecord :=
  (if (bodiesOf line instructions).any (drops (pass.watches method)) then none
  else pass.store.line? line).getD { line, signature := method.signature }

variable {pass : ClassPass}

theorem runsAt_beginMethod (hstore : pass.store.Reachable) (method : MethodInfo) :
    (pass.beginMethod method).RunsAt (pass.watches method) {} :=
  .start hstore pass.settings method

theorem positional_startRecord (hpositional : pass.store.Positional) (method : MethodInfo)
    (instructions : List Instruction) (line : UInt32) :
    (pass.startRecord method instructions line).Positional := by
  unfold startRecord
  split_ifs
  · exact LineRecord.positional_fresh line method.signature
  · cases hfound : pass.store.line? line with
    | none => exact LineRecord.positional_fresh line method.signature
    | some record => exact hpositional line record hfound

/-- What a method leaves of a line is what its last segments made of the record that they went on
with. -/
theorem record_eq_throughAll (hstore : pass.store.Reachable)
    (hcounts : pass.settings.countsBranches = true) {method : MethodInfo}
    {instructions : List Instruction} {line : UInt32} {record : LineRecord}
    (hrecord : (pass.instrument method instructions).1.store.line? line = some record) :
    record = (pass.startRecord method instructions line).throughAll (pass.watches method) line
      (lastBodies (pass.watches method) line instructions) := by
  have hfinish := (runsAt_beginMethod hstore method).line?_finish_visitAll hcounts instructions line
  have hfold := getD_foldl_afterSegment (pass.watches method) line method.signature
    (pass.store.line? line) (bodiesOf line instructions)
  have hleft : (bodiesOf line instructions).foldl
      (afterSegment (pass.watches method) line method.signature) (pass.store.line? line) =
        some record := hfinish.symm.trans hrecord
  rw [hleft, Option.getD_some] at hfold
  exact hfold

theorem positional_instrument (hstore : pass.store.Reachable)
    (hpositional : pass.store.Positional) (method : MethodInfo)
    (instructions : List Instruction) :
    (pass.instrument method instructions).1.store.Positional := by
  obtain ⟨last, hlast, hvisited⟩ :=
    (runsAt_beginMethod hstore method).positional_visitAll hpositional instructions
  exact hlast.positional_close hvisited last.calls_finish

/-- Declared and discharged branches balance over a method that counts branches. Ids stay positions.
A record has the branches that it started from, a further jump for each conditional jump of its last
segments that is not a discharged null check, and a further switch for each switch, as long as the
line has ids for them and the filter can count the checks that wait. And at every event within a
segment, the records that are popped are those under which the null checks were declared that the
event discharges. -/
theorem instrument_balance (hstore : pass.store.Reachable) (hpositional : pass.store.Positional)
    (hcounts : pass.settings.countsBranches = true) (method : MethodInfo)
    (instructions : List Instruction) :
    (pass.instrument method instructions).1.store.Positional ∧
    (∀ line record, (pass.instrument method instructions).1.store.line? line = some record →
      let start := pass.startRecord method instructions line
      let bodies := lastBodies (pass.watches method) line instructions
      let keys := bodies.flatten.filterMap Instruction.switchKeys?
      (∀ body ∈ bodies, FitsCounter body) →
      start.jumps.size + bodies.flatten.countP Instruction.isConditionalJump ≤ UInt32.size →
      start.switches.size + keys.length ≤ UInt32.size →
      ∃ left, left + dischargedIn (pass.watches method) bodies =
          bodies.flatten.countP Instruction.isConditionalJump ∧
        record = start.extended left keys) ∧
    (∀ before line body event after,
      instructions = before ++ .marker line :: (body ++ event :: after) →
      (∀ instruction ∈ body, instruction.isMarker = false) → event.isMarker = false →
      let passAfter (events : List Instruction) : MethodPass :=
        (pass.beginMethod method).visitAll (before ++ .marker line :: events)
      ∃ opened, (passAfter []).store.line? line = some opened ∧
        (FitsCounter body →
          opened.jumps.size + body.countP Instruction.isConditionalJump ≤ UInt32.size →
          ∃ record later, (passAfter body).store.line? line = some record ∧
            (passAfter (body ++ [event])).store.line? line = some later ∧
            ∀ slot jump, record.jumps[slot]? = some jump →
              (later.jumps[slot]? ≠ some jump ↔ pass.watches method = true ∧
                ∃ first check, DischargedBy first check body event ∧
                  (passAfter first).declaredJump? check = some (line, UInt32.ofNat slot)))) := by
  refine ⟨positional_instrument hstore hpositional method instructions,
    fun line record hrecord ↦ ?_, fun before line body event after _ hbody hevent ↦ ?_⟩
  · intro start bodies keys hfits hjumps hswitches
    rw [record_eq_throughAll hstore hcounts hrecord]
    exact (positional_startRecord hpositional method instructions line).throughAll_eq line hfits
      hjumps hswitches
  · intro passAfter
    obtain ⟨last, hlast, hvisited⟩ :=
      (runsAt_beginMethod hstore method).positional_visitAll hpositional before
    have hsettings := congrArg Settings.countsBranches
      (MethodPass.settings_visitAll (pass.beginMethod method) before)
    obtain ⟨opened, hbegins⟩ := hlast.beginsSegment (hsettings.trans hcounts) hvisited line
    have hafter (events : List Instruction) : passAfter events =
        (((pass.beginMethod method).visitAll before).visit (.marker line)).visitAll events :=
      MethodPass.visitAll_append _ before _
    simp only [hafter]
    exact ⟨opened, hbegins.line?_eq, hbegins.popped_iff hbody hevent⟩

/-- A line of another method, on which a jump is followed by a resource that is guarded, closed and
left by a `goto`, and then by a switch. The null check was jump 2. -/
theorem instrument_balance_of_guarded_resource :
    let pass : ClassPass := (({ store := { name := "C" }, settings := {} } : ClassPass).instrument
      ⟨"C", "a", "()V", 52⟩ [.marker 7, .iload 1, .jumpAnywhere .ifEq]).1
    let method : MethodInfo := ⟨"C", "b", "()V", 52⟩
    let body : List Instruction := [.iload 1, .jumpAnywhere .ifNe, .aload 1, .jumpAnywhere .ifNull,
      .aload 1, .invokeVirtual "java/io/Reader" "close" "()V"]
    let instructions : List Instruction :=
      .marker 7 :: (body ++ .jumpAnywhere .goto :: [.tableSwitch 0 1])
    let start : LineRecord := { line := 7, signature := "a()V", jumps := #[{ id := 0 }] }
    pass.store.Positional ∧
      (pass.instrument method instructions).1.store.line? 7 =
        some (start.extended 1 [.range 0 1]) ∧
      ∃ later, ((pass.beginMethod method).visitAll
        (.marker 7 :: (body ++ [.jumpAnywhere .goto]))).store.line? 7 = some later ∧
        later.jumps[2]? ≠ some { id := 2 } := by
  intro pass method body instructions start
  have hnone : ({ name := "C" } : ClassStore).Positional := fun line record hrecord ↦ by
    cases (LineTable.find?_empty line).symm.trans hrecord
  have hpositional : pass.store.Positional := positional_instrument (.fresh "C") hnone _ _
  have hstore : pass.store.Reachable := reachable_instrument (.fresh "C") _ _
  obtain ⟨-, hrecords, hpopped⟩ := instrument_balance hstore hpositional rfl method instructions
  refine ⟨hpositional, ?_, ?_⟩
  · have hstart : pass.startRecord method instructions 7 = start := by decide +kernel
    obtain ⟨record, hrecord⟩ := Option.isSome_iff_exists.mp
      (show ((pass.instrument method instructions).1.store.line? 7).isSome = true by
        decide +kernel)
    have hbalance := hrecords 7 record hrecord
    rw [hstart] at hbalance
    obtain ⟨left, hleft, rfl⟩ := hbalance (by decide) (by decide) (by decide)
    have hone : left = 1 := Nat.add_right_cancel (hleft.trans (by decide))
    rw [hrecord, hone]
    rfl
  · obtain ⟨opened, hopened, hevents⟩ :=
      hpopped [] 7 body (.jumpAnywhere .goto) [.tableSwitch 0 1] rfl (by decide) rfl
    obtain rfl : start = opened := Option.some.inj (Eq.trans (by decide +kernel) hopened)
    obtain ⟨record, later, hrecord, hlater, hslots⟩ := hevents (by decide) (by decide)
    obtain rfl : start.extended 2 [] = record :=
      Option.some.inj (Eq.trans (by decide +kernel) hrecord)
    refine ⟨later, hlater, (hslots 2 { id := 2 } (by decide)).mpr ⟨rfl, body.take 3,
      .jumpAnywhere .ifNull, ⟨body.drop 4, rfl, rfl, rfl, rfl⟩, by decide +kernel⟩⟩

end ClassPass

end JvmCoverage
