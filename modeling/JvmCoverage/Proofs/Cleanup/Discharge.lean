import JvmCoverage.Proofs.Cleanup.Recognition
import JvmCoverage.Proofs.Line.Declaration
/-!
# Null checks and their discharge

A null check is declared as a jump before the recognizer reads it, and the recognizer only counts
how many of them wait. It takes the jumps back when the `close` call that they guard is followed by
a `goto`, and forgets them when an event does not match.

Whether a null check is taken back is thus decided by what comes after it: `Stage.discharges` says
that the events match up to such a `goto` (`Stage.discharges_iff`), and `dischargedAfter` counts the
null checks of which this holds. The main statements are that the recognizer takes back this number
of jumps (`Progress.takenBack_eq`), and that the checks that wait are those that were declared last
(`waiting_iff`). The number of checks that wait is a machine word, so both ask for fewer jumps than
it can count. That no more is taken back than was declared holds even where it wraps around
(`Progress.pendingChecks_readAll_le`).
-/

set_option autoImplicit false
set_option relaxedAutoImplicit false

namespace JvmCoverage.Cleanup

theorem isConditionalJump_of_checkNull {instruction : Instruction}
    (hletter : instruction.signal.letter? = some .checkNull) :
    instruction.isConditionalJump = true := by
  cases spells_of_letter? hletter
  rfl

/-! ### The null checks that wait -/

namespace Progress

/-- How many of the jumps that were declared last a letter takes back. -/
def discharged (progress : Progress) (letter? : Option Letter) : Nat :=
  if progress.stage = .closed ∧ letter? = some .goto then progress.pendingChecks.toNat else 0

theorem discharged_of_next?_eq_none {progress : Progress} {letter : Letter}
    (hnext : progress.stage.next? letter = none) : progress.discharged (some letter) = 0 := by
  refine if_neg ?_
  rintro ⟨hstage, hletter⟩
  cases hletter
  rw [hstage] at hnext
  cases hnext

theorem calls_advance (progress : Progress) (letter : Letter) (stage : Stage) :
    (progress.advance letter stage).2 = progress.line.elim []
      fun line ↦ List.replicate (progress.discharged (some letter)) (.dropLastJump line) := by
  unfold advance discharged
  split
  · next hstage => cases progress.line <;> simp [hstage]
  · next hstage => cases progress.line <;> simp [hstage]
  · next hother =>
    rw [if_neg fun hboth ↦ hother hboth.1 (Option.some.inj hboth.2)]
    cases progress.line <;> rfl

/-- Within a line nothing but jumps is taken back. -/
theorem calls_read (progress : Progress) (letter? : Option Letter) :
    (progress.read letter?).2 = progress.line.elim []
      fun line ↦ List.replicate (progress.discharged letter?) (.dropLastJump line) := by
  cases letter? with
  | none => cases hline : progress.line <;> simp [read, discharged]
  | some letter =>
    cases hnext : progress.stage.next? letter with
    | none =>
      rw [discharged_of_next?_eq_none hnext]
      cases progress.line <;> simp [read, hnext]
    | some stage =>
      simp only [read, hnext]
      exact progress.calls_advance letter stage

theorem toNat_pendingChecks_add_one_le (progress : Progress) :
    (progress.pendingChecks + 1).toNat ≤ progress.pendingChecks.toNat + 1 := by
  rw [UInt32.toNat_add, UInt32.toNat_one]
  exact Nat.mod_le _ _

theorem toNat_pendingChecks_add_one {progress : Progress}
    (hroom : progress.pendingChecks.toNat + 1 < UInt32.size) :
    (progress.pendingChecks + 1).toNat = progress.pendingChecks.toNat + 1 :=
  toNat_add_of_lt hroom

/-- What waits and what is taken back was waiting before, or is the null check that was read. -/
theorem pendingChecks_read_le (progress : Progress) (letter? : Option Letter) :
    (progress.read letter?).1.pendingChecks.toNat + progress.discharged letter? ≤
      progress.pendingChecks.toNat + if letter? = some .checkNull then 1 else 0 := by
  cases letter? with
  | none => simp [read, taint, discharged]
  | some letter =>
    cases hnext : progress.stage.next? letter with
    | none =>
      rw [discharged_of_next?_eq_none hnext]
      simp [read, hnext, taint]
    | some stage =>
      simp only [read, hnext, advance, discharged]
      split
      · next hstage => simpa [hstage] using progress.toNat_pendingChecks_add_one_le
      · next hstage => simp [hstage]
      · next hother =>
        rw [if_neg fun hboth ↦ hother hboth.1 (Option.some.inj hboth.2)]
        exact Nat.le_add_right _ _

/-- Only a conditional jump makes more checks wait. -/
theorem pendingChecks_signal_le (progress : Progress) (instruction : Instruction) :
    (progress.read instruction.signal.letter?).1.pendingChecks.toNat +
        progress.discharged instruction.signal.letter? ≤
      progress.pendingChecks.toNat + instruction.isConditionalJump.toNat := by
  refine Nat.le_trans (progress.pendingChecks_read_le _) (Nat.add_le_add_left ?_ _)
  split
  · next hletter => rw [isConditionalJump_of_checkNull hletter, Bool.toNat_true]
  · exact Nat.zero_le _

/-- The progress after events within a line. -/
def readAll (progress : Progress) (body : List Instruction) : Progress :=
  body.foldl (fun progress instruction ↦ (progress.read instruction.signal.letter?).1) progress

/-- How many jumps are taken back over events within a line. -/
def takenBack (progress : Progress) : List Instruction → Nat
  | [] => 0
  | instruction :: rest =>
    progress.discharged instruction.signal.letter? +
      (progress.read instruction.signal.letter?).1.takenBack rest

theorem takenBack_append (progress : Progress) (first second : List Instruction) :
    progress.takenBack (first ++ second) =
      progress.takenBack first + (progress.readAll first).takenBack second := by
  induction first generalizing progress with
  | nil => exact (Nat.zero_add _).symm
  | cons instruction rest ih =>
    rw [List.cons_append, takenBack, takenBack, ih, Nat.add_assoc]
    rfl

end Progress

/-! ### What becomes of a null check -/

namespace Stage

/-- The only way to the stage behind a null check. -/
theorem next?_eq_checkedResource_iff {stage : Stage} {letter : Letter} :
    stage.next? letter = some .checkedResource ↔ stage = .loadedResource ∧ letter = .checkNull := by
  cases stage <;> cases letter <;> decide

/-- The only way to the stage behind a `goto` that follows a `close` call. -/
theorem next?_eq_jumped_iff {stage : Stage} {letter : Letter} :
    stage.next? letter = some .jumped ↔ stage = .closed ∧ letter = .goto := by
  cases stage <;> cases letter <;> decide

/-- The stage after an event; one that does not match sends the automaton back to its start. -/
def follow (stage : Stage) (instruction : Instruction) : Stage :=
  (advance? (some stage) instruction).getD .initial

/-- The stage after events that all match, unless a null check is discharged at one of them. -/
def waits? : Stage → List Instruction → Option Stage
  | stage, [] => some stage
  | stage, instruction :: rest =>
    (advance? (some stage) instruction).bind fun next ↦
      if next = .jumped then none else next.waits? rest

/-- The events match up to a `goto` that follows a `close` call. -/
def discharges : Stage → List Instruction → Bool
  | _, [] => false
  | stage, instruction :: rest =>
    (advance? (some stage) instruction).any fun next ↦ next = .jumped || next.discharges rest

end Stage

/-- The stage of the automaton after the events of a line. -/
def stageOf (body : List Instruction) : Stage := body.foldl Stage.follow .initial

/-- The event is read as the null check of a resource. -/
def ChecksAt (stage : Stage) (instruction : Instruction) : Prop :=
  advance? (some stage) instruction = some .checkedResource

instance (stage : Stage) (instruction : Instruction) : Decidable (ChecksAt stage instruction) :=
  inferInstanceAs (Decidable (_ = _))

/-- How many null checks of resources are discharged among events that are read from the stage. -/
def dischargedAfter (stage : Stage) : List Instruction → Nat
  | [] => 0
  | instruction :: rest =>
    (if ChecksAt stage instruction ∧ Stage.checkedResource.discharges rest then 1 else 0) +
      dischargedAfter (stage.follow instruction) rest

theorem advance?_eq_jumped_iff {stage : Stage} {instruction : Instruction} :
    advance? (some stage) instruction = some .jumped ↔
      stage = .closed ∧ instruction.signal.letter? = some .goto := by
  simp only [advance?, Option.bind_some, Option.bind_eq_some_iff, Stage.next?_eq_jumped_iff]
  constructor
  · rintro ⟨letter, hletter, hstage, rfl⟩
    exact ⟨hstage, hletter⟩
  · rintro ⟨hstage, hletter⟩
    exact ⟨.goto, hletter, hstage, rfl⟩

theorem checksAt_iff {stage : Stage} {instruction : Instruction} :
    ChecksAt stage instruction ↔
      stage = .loadedResource ∧ instruction.signal.letter? = some .checkNull := by
  simp only [ChecksAt, advance?, Option.bind_some, Option.bind_eq_some_iff,
    Stage.next?_eq_checkedResource_iff]
  constructor
  · rintro ⟨letter, hletter, hstage, rfl⟩
    exact ⟨hstage, hletter⟩
  · rintro ⟨hstage, hletter⟩
    exact ⟨.checkNull, hletter, hstage, rfl⟩

namespace Progress

/-- All that reading an event can do to the checks that wait. -/
inductive Settles (progress : Progress) (instruction : Instruction) : UInt32 → Nat → Prop
  | unmatched (hnext : advance? (some progress.stage) instruction = none) :
    Settles progress instruction 0 0
  | checked (hnext : advance? (some progress.stage) instruction = some .checkedResource) :
    Settles progress instruction (progress.pendingChecks + 1) 0
  | discharged (hnext : advance? (some progress.stage) instruction = some .jumped) :
    Settles progress instruction 0 progress.pendingChecks.toNat
  | matched {next : Stage} (hnext : advance? (some progress.stage) instruction = some next)
    (hchecked : next ≠ .checkedResource) (hjumped : next ≠ .jumped) :
    Settles progress instruction progress.pendingChecks 0

theorem settles (progress : Progress) (instruction : Instruction) :
    progress.Settles instruction (progress.read instruction.signal.letter?).1.pendingChecks
      (progress.discharged instruction.signal.letter?) := by
  by_cases hchecks : ChecksAt progress.stage instruction
  · obtain ⟨hstage, hletter⟩ := checksAt_iff.mp hchecks
    rw [hletter]
    simp only [read, advance, hstage, discharged]
    exact .checked hchecks
  by_cases hjumps : advance? (some progress.stage) instruction = some .jumped
  · obtain ⟨hstage, hletter⟩ := advance?_eq_jumped_iff.mp hjumps
    rw [hletter]
    simp only [read, advance, hstage, discharged]
    exact .discharged hjumps
  rw [discharged, if_neg fun hboth ↦ hjumps (advance?_eq_jumped_iff.mpr hboth)]
  cases hletter : instruction.signal.letter? with
  | none => exact .unmatched (by simp [advance?, hletter])
  | some letter =>
    have hadvance : advance? (some progress.stage) instruction = progress.stage.next? letter := by
      simp [advance?, hletter]
    cases hnext : progress.stage.next? letter with
    | none =>
      simp only [read, hnext]
      exact .unmatched (hadvance.trans hnext)
    | some next =>
      rw [ChecksAt, hadvance, hnext] at hchecks
      rw [hadvance, hnext] at hjumps
      have hpending : (progress.advance letter next).1.pendingChecks = progress.pendingChecks := by
        unfold advance
        split
        · next hstage =>
          rw [hstage] at hnext
          exact absurd hnext.symm hchecks
        · next hstage =>
          rw [hstage] at hnext
          exact absurd hnext.symm hjumps
        · rfl
      simp only [read, hnext, hpending]
      exact .matched (hadvance.trans hnext) (fun heq ↦ hchecks (congrArg some heq))
        fun heq ↦ hjumps (congrArg some heq)

theorem stage_read (progress : Progress) (instruction : Instruction) :
    (progress.read instruction.signal.letter?).1.stage = progress.stage.follow instruction := by
  cases hletter : instruction.signal.letter? with
  | none => simp [read, taint, Stage.follow, advance?, hletter]
  | some letter =>
    cases hnext : progress.stage.next? letter with
    | none => simp [read, taint, Stage.follow, advance?, hletter, hnext]
    | some next => simp [read, Stage.follow, advance?, hletter, hnext, advance_fst]

theorem line_readAll (progress : Progress) (body : List Instruction) :
    (progress.readAll body).line = progress.line := by
  induction body generalizing progress with
  | nil => rfl
  | cons instruction rest ih => exact (ih _).trans (progress.line_read _)

theorem stage_readAll (progress : Progress) (body : List Instruction) :
    (progress.readAll body).stage = body.foldl Stage.follow progress.stage := by
  induction body generalizing progress with
  | nil => rfl
  | cons instruction rest ih =>
    rw [List.foldl_cons, ← stage_read]
    exact ih _

/-- What is taken back are the checks that wait, if they are discharged, and the checks among the
events that are discharged, as long as all of them can be counted. -/
theorem takenBack_eq {progress : Progress} {body : List Instruction}
    (hroom : progress.pendingChecks.toNat + body.countP Instruction.isConditionalJump <
      UInt32.size) :
    progress.takenBack body =
      (if progress.stage.discharges body then progress.pendingChecks.toNat else 0) +
        dischargedAfter progress.stage body := by
  induction body generalizing progress with
  | nil => rfl
  | cons instruction rest ih =>
    rw [Instruction.countP_isConditionalJump_cons] at hroom
    have hwaiting := progress.pendingChecks_signal_le instruction
    have hsettles := progress.settles instruction
    rw [takenBack, ih (by omega), stage_read]
    generalize (progress.read instruction.signal.letter?).1.pendingChecks = waiting at hsettles ⊢
    generalize progress.discharged instruction.signal.letter? = taken at hsettles ⊢
    rcases hsettles with hnext | hnext | hnext | ⟨hnext, hchecked, hjumped⟩
    · simp [dischargedAfter, ChecksAt, Stage.follow, Stage.discharges, hnext]
    · rw [isConditionalJump_of_checkNull (checksAt_iff.mp hnext).2, Bool.toNat_true] at hroom
      have hcounted := @toNat_pendingChecks_add_one progress (by omega)
      simp only [dischargedAfter, ChecksAt, Stage.follow, Stage.discharges, hnext, Option.any_some,
        Option.getD_some, reduceCtorEq, decide_false, Bool.false_or, true_and]
      split_ifs
      · omega
      · omega
    · simp [dischargedAfter, ChecksAt, Stage.follow, Stage.discharges, hnext]
    · simp [dischargedAfter, ChecksAt, Stage.follow, Stage.discharges, hnext, hchecked, hjumped]

theorem pendingChecks_readAll_le (progress : Progress) (body : List Instruction) :
    (progress.readAll body).pendingChecks.toNat + progress.takenBack body ≤
      progress.pendingChecks.toNat + body.countP Instruction.isConditionalJump := by
  induction body generalizing progress with
  | nil => exact Nat.le_refl _
  | cons instruction rest ih =>
    have hread := progress.pendingChecks_signal_le instruction
    have hrest := ih (progress.read instruction.signal.letter?).1
    rw [takenBack, Instruction.countP_isConditionalJump_cons]
    change ((progress.read instruction.signal.letter?).1.readAll rest).pendingChecks.toNat + _ ≤ _
    omega

end Progress

theorem Stage.waits?_append (stage : Stage) (first second : List Instruction) :
    stage.waits? (first ++ second) = (stage.waits? first).bind (·.waits? second) := by
  induction first generalizing stage with
  | nil => rfl
  | cons instruction rest ih =>
    rw [List.cons_append, waits?, waits?, Option.bind_assoc]
    refine congrArg _ (funext fun next ↦ ?_)
    split_ifs
    · rfl
    · exact ih next

/-- A check is discharged when the events let it wait until a `close` call is read and a `goto`
comes next. -/
theorem Stage.discharges_iff (stage : Stage) (body : List Instruction) :
    stage.discharges body = true ↔ ∃ between last after, body = between ++ last :: after ∧
      stage.waits? between = some .closed ∧ last.signal.letter? = some .goto := by
  induction body generalizing stage with
  | nil => simp [discharges]
  | cons instruction rest ih =>
    simp only [discharges, Option.any_eq_true, Bool.or_eq_true, decide_eq_true_eq, ih]
    constructor
    · rintro ⟨next, hnext, rfl | ⟨between, last, after, rfl, hwaits, hletter⟩⟩
      · obtain ⟨rfl, hletter⟩ := advance?_eq_jumped_iff.mp hnext
        exact ⟨[], instruction, rest, rfl, rfl, hletter⟩
      · by_cases hjumped : next = .jumped
        · subst hjumped
          obtain ⟨rfl, hletter⟩ := advance?_eq_jumped_iff.mp hnext
          exact ⟨[], instruction, _, rfl, rfl, hletter⟩
        · refine ⟨instruction :: between, last, after, rfl, ?_, hletter⟩
          rw [waits?, hnext, Option.bind_some, if_neg hjumped, hwaits]
    · rintro ⟨_ | ⟨head, between⟩, last, after, hsplit, hwaits, hletter⟩
      · obtain ⟨rfl, rfl⟩ := List.cons.inj hsplit
        exact ⟨.jumped, advance?_eq_jumped_iff.mpr ⟨Option.some.inj hwaits, hletter⟩, .inl rfl⟩
      · obtain ⟨rfl, rfl⟩ := List.cons.inj hsplit
        obtain ⟨next, hnext, hrest⟩ := Option.bind_eq_some_iff.mp hwaits
        split_ifs at hrest with hjumped
        exact ⟨next, hnext, .inr ⟨between, last, after, rfl, hrest, hletter⟩⟩

/-! ### Which checks wait -/

/-- How many of the jumps that the events declare are left after them. -/
def jumpsLeft (body : List Instruction) : Nat :=
  body.countP Instruction.isConditionalJump - dischargedAfter .initial body

/-- After the events, the null check that follows the first of them waits for its `goto`. -/
def Waits (first body : List Instruction) : Prop :=
  ∃ check between, body = first ++ check :: between ∧ ChecksAt (stageOf first) check ∧
    Stage.checkedResource.waits? between = some (stageOf body)

theorem stageOf_append_singleton (body : List Instruction) (instruction : Instruction) :
    stageOf (body ++ [instruction]) = (stageOf body).follow instruction := by
  rw [stageOf, List.foldl_append]
  rfl

theorem Stage.foldl_follow_of_waits? {stage last : Stage} {between : List Instruction}
    (hwaits : stage.waits? between = some last) : between.foldl Stage.follow stage = last := by
  induction between generalizing stage with
  | nil => exact Option.some.inj hwaits
  | cons instruction rest ih =>
    obtain ⟨next, hnext, hrest⟩ := Option.bind_eq_some_iff.mp hwaits
    split_ifs at hrest
    rw [List.foldl_cons, follow, hnext]
    exact ih hrest

/-- A check that waits has left the automaton where the events since then lead. -/
theorem stageOf_of_waits? {first between : List Instruction} {check : Instruction} {last : Stage}
    (hchecks : ChecksAt (stageOf first) check)
    (hwaits : Stage.checkedResource.waits? between = some last) :
    stageOf (first ++ check :: between) = last := by
  rw [stageOf, List.foldl_append, List.foldl_cons]
  change between.foldl Stage.follow ((stageOf first).follow check) = last
  rw [Stage.follow, show advance? _ check = _ from hchecks]
  exact Stage.foldl_follow_of_waits? hwaits

theorem not_waits_nil (first : List Instruction) : ¬ Waits first [] := by
  rintro ⟨check, between, hsplit, -⟩
  exact List.append_ne_nil_of_right_ne_nil first (List.cons_ne_nil _ _) hsplit.symm

/-- A check waits after an event when it is the event, or when it waited before and the event
matches without a discharge. -/
theorem waits_append_singleton_iff (first body : List Instruction) (instruction : Instruction) :
    Waits first (body ++ [instruction]) ↔
      (first = body ∧ ChecksAt (stageOf body) instruction) ∨
        (Waits first body ∧ advance? (some (stageOf body)) instruction ≠ none ∧
          advance? (some (stageOf body)) instruction ≠ some .jumped) := by
  constructor
  · rintro ⟨check, between, hsplit, hchecks, hwaits⟩
    rcases between.eq_nil_or_concat with rfl | ⟨between, last, rfl⟩
    · obtain ⟨rfl, hcheck⟩ := List.append_inj' hsplit rfl
      cases hcheck
      exact .inl ⟨rfl, hchecks⟩
    · rw [List.concat_eq_append, ← List.cons_append, ← List.append_assoc] at hsplit
      obtain ⟨rfl, hlast⟩ := List.append_inj' hsplit rfl
      cases hlast
      rw [List.concat_eq_append, Stage.waits?_append] at hwaits
      obtain ⟨reached, hreached, hnext⟩ := Option.bind_eq_some_iff.mp hwaits
      have hstage := stageOf_of_waits? hchecks hreached
      refine .inr ⟨⟨check, between, rfl, hchecks, hstage ▸ hreached⟩, ?_⟩
      rw [hstage]
      obtain ⟨next, hadvance, hkept⟩ := Option.bind_eq_some_iff.mp hnext
      split_ifs at hkept with hjumped
      rw [hadvance]
      exact ⟨Option.some_ne_none _, fun heq ↦ hjumped (Option.some.inj heq)⟩
  · rintro (⟨rfl, hchecks⟩ | ⟨⟨check, between, rfl, hchecks, hwaits⟩, hmatched, hkept⟩)
    · refine ⟨instruction, [], rfl, hchecks, ?_⟩
      rw [stageOf_append_singleton, Stage.follow, show advance? _ instruction = _ from hchecks]
      rfl
    · refine ⟨check, between ++ [instruction], by simp, hchecks, ?_⟩
      obtain ⟨next, hnext⟩ := Option.ne_none_iff_exists'.mp hmatched
      rw [Stage.waits?_append, hwaits, Option.bind_some, stageOf_append_singleton, Stage.follow,
        Stage.waits?, hnext, Option.bind_some,
        if_neg fun hjumped ↦ hkept (hnext.trans (congrArg some hjumped))]
      rfl

/-- The recognizer at the start of a line. -/
theorem Progress.stage_readAll_line (line : UInt32) (body : List Instruction) :
    (readAll { line := some line } body).stage = stageOf body :=
  stage_readAll _ body

/-- The number of checks that wait does not wrap around, even if all jumps of the events wait. -/
def FitsCounter (body : List Instruction) : Prop :=
  body.countP Instruction.isConditionalJump < UInt32.size

instance (body : List Instruction) : Decidable (FitsCounter body) :=
  inferInstanceAs (Decidable (_ < _))

theorem FitsCounter.of_append {first second : List Instruction}
    (hfits : FitsCounter (first ++ second)) : FitsCounter first := by
  rw [FitsCounter, List.countP_append] at hfits
  exact Nat.lt_of_le_of_lt (Nat.le_add_right _ _) hfits

theorem Progress.takenBack_line (line : UInt32) {body : List Instruction}
    (hfits : FitsCounter body) :
    takenBack { line := some line } body = dischargedAfter .initial body := by
  have htaken := @takenBack_eq { line := some line } body (by rwa [UInt32.toNat_zero, Nat.zero_add])
  rwa [UInt32.toNat_zero, ite_self, Nat.zero_add] at htaken

/-- No more checks are discharged and wait than jumps were declared. -/
theorem pendingChecks_add_dischargedAfter_le (line : UInt32) {body : List Instruction}
    (hfits : FitsCounter body) :
    (Progress.readAll { line := some line } body).pendingChecks.toNat +
        dischargedAfter .initial body ≤
      body.countP Instruction.isConditionalJump := by
  have hle := Progress.pendingChecks_readAll_le { line := some line } body
  rwa [Progress.takenBack_line line hfits, UInt32.toNat_zero, Nat.zero_add] at hle

theorem jumpsLeft_append_singleton (line : UInt32) {body : List Instruction}
    {instruction : Instruction} (hfits : FitsCounter (body ++ [instruction])) :
    jumpsLeft (body ++ [instruction]) = jumpsLeft body + instruction.isConditionalJump.toNat -
      (Progress.readAll { line := some line } body).discharged instruction.signal.letter? := by
  have htaken := Progress.takenBack_append { line := some line } body [instruction]
  have hle := pendingChecks_add_dischargedAfter_le line hfits.of_append
  rw [Progress.takenBack_line line hfits, Progress.takenBack_line line hfits.of_append,
    Progress.takenBack, Progress.takenBack, Nat.add_zero] at htaken
  rw [jumpsLeft, jumpsLeft, htaken, List.countP_append,
    Instruction.countP_isConditionalJump_cons, List.countP_nil, Nat.add_zero]
  omega

theorem isConditionalJump_of_advance? {stage next : Stage} {instruction : Instruction}
    (hnext : advance? (some stage) instruction = some next) (hchecked : next ≠ .checkedResource) :
    instruction.isConditionalJump = false := by
  rw [advance?, Option.bind_some] at hnext
  obtain ⟨letter, hletter, hstage⟩ := Option.bind_eq_some_iff.mp hnext
  cases spells_of_letter? hletter with
  | checkNull target =>
    cases stage <;> cases hstage
    exact absurd rfl hchecked
  | _ => rfl

/-- In a row of jumps whose last ones wait, these are after an event the new jump, if it is a check,
and those that waited before, unless the event does not match or discharges them. -/
theorem Progress.waiting_read_iff {progress : Progress} {instruction : Instruction}
    (hroom : progress.pendingChecks.toNat + instruction.isConditionalJump.toNat < UInt32.size)
    (left slot : Nat) :
    (slot < left + instruction.isConditionalJump.toNat -
        progress.discharged instruction.signal.letter? ∧
      left + instruction.isConditionalJump.toNat -
          progress.discharged instruction.signal.letter? ≤
        slot + (progress.read instruction.signal.letter?).1.pendingChecks.toNat) ↔
      (ChecksAt progress.stage instruction ∧ left = slot) ∨
        (advance? (some progress.stage) instruction ≠ none ∧
          advance? (some progress.stage) instruction ≠ some .jumped) ∧
          slot < left ∧ left ≤ slot + progress.pendingChecks.toNat := by
  have hsettles := progress.settles instruction
  generalize (progress.read instruction.signal.letter?).1.pendingChecks = waiting at hsettles ⊢
  generalize progress.discharged instruction.signal.letter? = taken at hsettles ⊢
  rcases hsettles with hnext | hnext | hnext | ⟨hnext, hchecked, hjumped⟩
  · simp [ChecksAt, hnext]
  · have hjump := isConditionalJump_of_checkNull (checksAt_iff.mp hnext).2
    rw [hjump, Bool.toNat_true] at hroom
    have hcounted := toNat_pendingChecks_add_one hroom
    simp only [ChecksAt, hnext, hjump, Bool.toNat_true, Nat.sub_zero, true_and, ne_eq,
      reduceCtorEq, not_false_eq_true, Option.some.injEq]
    omega
  · refine iff_of_false ?_ (by simp [ChecksAt, hnext])
    rw [UInt32.toNat_zero]
    omega
  · have hjump := isConditionalJump_of_advance? hnext hchecked
    simp [ChecksAt, hnext, hjump, hchecked, hjumped]

/-- The checks that wait are those that were declared last. -/
theorem waiting_iff (line : UInt32) {body : List Instruction} (hfits : FitsCounter body)
    (slot : Nat) :
    (slot < jumpsLeft body ∧
      jumpsLeft body ≤ slot + (Progress.readAll { line := some line } body).pendingChecks.toNat) ↔
      ∃ first, Waits first body ∧ jumpsLeft first = slot := by
  induction body using List.reverseRecOn with
  | nil => simp [jumpsLeft, not_waits_nil]
  | append_singleton body instruction ih =>
    have hread : Progress.readAll { line := some line } (body ++ [instruction]) =
        ((Progress.readAll { line := some line } body).read instruction.signal.letter?).1 :=
      List.foldl_append
    have hwaits : (∃ first, Waits first (body ++ [instruction]) ∧ jumpsLeft first = slot) ↔
        (ChecksAt (stageOf body) instruction ∧ jumpsLeft body = slot) ∨
          (advance? (some (stageOf body)) instruction ≠ none ∧
            advance? (some (stageOf body)) instruction ≠ some .jumped) ∧
            ∃ first, Waits first body ∧ jumpsLeft first = slot := by
      simp only [waits_append_singleton_iff, or_and_right, exists_or, and_assoc, exists_eq_left]
      tauto
    have hle := pendingChecks_add_dischargedAfter_le line hfits.of_append
    have hroom : (Progress.readAll { line := some line } body).pendingChecks.toNat +
        instruction.isConditionalJump.toNat < UInt32.size := by
      rw [FitsCounter, List.countP_append, Instruction.countP_isConditionalJump_cons,
        List.countP_nil] at hfits
      omega
    rw [hwaits, ← ih hfits.of_append, hread, jumpsLeft_append_singleton line hfits,
      Progress.waiting_read_iff hroom, Progress.stage_readAll_line]

/-- The checks that wait stand at the end of a row that was so long before the events. -/
theorem exists_waits_iff (line : UInt32) {body : List Instruction} (hfits : FitsCounter body)
    {start slot : Nat} (hslot : slot < start + jumpsLeft body) :
    (∃ first, Waits first body ∧ start + jumpsLeft first = slot) ↔
      start + jumpsLeft body - (Progress.readAll { line := some line } body).pendingChecks.toNat ≤
        slot := by
  have hle := pendingChecks_add_dischargedAfter_le line hfits
  have hleft : jumpsLeft body =
    body.countP Instruction.isConditionalJump - dischargedAfter .initial body := rfl
  constructor
  · rintro ⟨first, hwaits, rfl⟩
    have hlast := ((waiting_iff line hfits _).mpr ⟨first, hwaits, rfl⟩).2
    omega
  · intro hlast
    obtain ⟨first, hwaits, hfirst⟩ :=
      (waiting_iff line hfits (slot - start)).mp ⟨by omega, by omega⟩
    exact ⟨first, hwaits, by omega⟩

/-- An event discharges the null check that follows the first of the events before it. -/
def DischargedBy (first : List Instruction) (check : Instruction) (body : List Instruction)
    (instruction : Instruction) : Prop :=
  ∃ between, body = first ++ check :: between ∧ ChecksAt (stageOf first) check ∧
    Stage.checkedResource.waits? between = some .closed ∧
    instruction.signal.letter? = some .goto

theorem exists_dischargedBy_iff {first body : List Instruction} {instruction : Instruction} :
    (∃ check, DischargedBy first check body instruction) ↔
      (stageOf body = .closed ∧ instruction.signal.letter? = some .goto) ∧ Waits first body := by
  constructor
  · rintro ⟨check, between, rfl, hchecks, hwaits, hletter⟩
    have hstage := stageOf_of_waits? hchecks hwaits
    exact ⟨⟨hstage, hletter⟩, check, between, rfl, hchecks, hstage ▸ hwaits⟩
  · rintro ⟨⟨hstage, hletter⟩, check, between, rfl, hchecks, hwaits⟩
    exact ⟨check, between, rfl, hchecks, hstage ▸ hwaits, hletter⟩

end JvmCoverage.Cleanup
