import JvmCoverage.Proofs.Instrumentation.Records
import Mathlib.Tactic.ByContra
/-!
# Which jump an id leads to

The code that is injected for a jump knows it by its line and the id that it was declared under
(`MethodPass.declaredJump?`). An id is the number of jumps that the line has at that moment. So it
is new on its line and leads to the record of that jump as long as the row only grows. But when the
cleanup filter takes a jump back or drops the line, the next jump gets an id that was given away
before, and the injected code of both counts in one record.

`MethodPass.declared_id_until_retraction` says that this is the only way: two jumps of a method are
declared under one id of a line only when the filter retracted something of that line in between.
-/

set_option autoImplicit false
set_option relaxedAutoImplicit false

namespace JvmCoverage

namespace Cleanup

/-- A conditional jump takes nothing back. -/
theorem Progress.discharged_of_isConditionalJump (progress : Progress) {instruction : Instruction}
    (hconditional : instruction.isConditionalJump = true) :
    progress.discharged instruction.signal.letter? = 0 := by
  refine if_neg ?_
  rintro ⟨-, hletter⟩
  cases spells_of_letter? hletter
  cases hconditional

theorem Watches.calls_of_isConditionalJump {active : Bool} {chain : FilterChain Retraction}
    {open? : Option Segment} (hwatches : Watches active chain open?) {instruction : Instruction}
    (hconditional : instruction.isConditionalJump = true) :
    (chain.deliver instruction.signal).2 = [] := by
  rcases hwatches with @⟨progress, _, hfollows⟩ | open?
  · have hmarker : instruction.isMarker = false := by
      cases instruction with
      | marker line => cases hconditional
      | _ => rfl
    rw [deliver_chainAt, progress.step_signal hmarker, progress.calls_read,
      progress.discharged_of_isConditionalJump hconditional]
    cases progress.line <;> rfl
  · rfl

end Cleanup

namespace MethodPass

/-- The line and the id that an event declares a jump under. -/
def declaredJump? (pass : MethodPass) (instruction : Instruction) : Option (UInt32 × UInt32) :=
  if instruction.isConditionalJump && pass.settings.countsBranches then do
    let line ← pass.currentLine
    let record ← pass.store.line? line
    some (line, UInt32.ofNat record.jumps.size)
  else none

/-- The pass over a class without coverage, after the given events. -/
def after (name : String) (settings : Settings) (method : MethodInfo)
    (events : List Instruction) : MethodPass :=
  (start { name } settings method).visitAll events

section Declared

variable {pass : MethodPass} {instruction : Instruction} {line id : UInt32}

theorem declaredJump?_eq_some_iff :
    pass.declaredJump? instruction = some (line, id) ↔
      (instruction.isConditionalJump = true ∧ pass.settings.countsBranches = true) ∧
        pass.currentLine = some line ∧
          ∃ record, pass.store.line? line = some record ∧ UInt32.ofNat record.jumps.size = id := by
  unfold declaredJump?
  split_ifs with hcounted
  · rw [Bool.and_eq_true] at hcounted
    simp only [Option.bind_eq_bind, Option.bind_eq_some_iff, Option.some_inj, Prod.mk.injEq]
    constructor
    · rintro ⟨opened, hopened, record, hrecord, rfl, hid⟩
      exact ⟨hcounted, hopened, record, hrecord, hid⟩
    · rintro ⟨-, hopened, record, hrecord, hid⟩
      exact ⟨line, hopened, record, hrecord, rfl, hid⟩
  · rw [Bool.and_eq_true] at hcounted
    simp [hcounted]

/-- The declared jump is put at the end of the row. -/
theorem line?_visit_of_declaredJump? (hstore : pass.store.Reachable)
    (hcalls : (pass.filters.deliver instruction.signal).2 = [])
    (hdeclared : pass.declaredJump? instruction = some (line, id)) :
    ∃ record, pass.store.line? line = some record ∧ UInt32.ofNat record.jumps.size = id ∧
      (pass.visit instruction).store.line? line = some (record.addJump id) := by
  obtain ⟨⟨hconditional, hcounts⟩, hcurrent, record, hrecord, rfl⟩ :=
    declaredJump?_eq_some_iff.mp hdeclared
  have hdeclares : pass.declaring line instruction record =
      record.addJump (UInt32.ofNat record.jumps.size) :=
    (if_pos ⟨hcurrent, hcounts⟩).trans (record.declare_of_isConditionalJump hconditional)
  refine ⟨record, hrecord, rfl, ?_⟩
  rw [line?_visit_of_quiet hstore (by simp [hcalls]) hrecord, hdeclares]

end Declared

/-! ### Runs over a class without coverage -/

section Run

variable {name : String} {settings : Settings} {method : MethodInfo} {line id : UInt32}

theorem after_append (events more : List Instruction) :
    after name settings method (events ++ more) =
      (after name settings method events).visitAll more :=
  List.foldl_append

theorem reachable_after (events : List Instruction) :
    (after name settings method events).store.Reachable := by
  have hfresh : (start { name } settings method).store.Reachable := .fresh name
  exact reachable_visitAll hfresh events

/-- There are ids for all jumps that are to come. -/
theorem hasRoom_after {events rest : List Instruction}
    (hroom : (events ++ rest).countP Instruction.isConditionalJump ≤ UInt32.size) :
    (after name settings method events).store.HasRoom line
      (rest.countP Instruction.isConditionalJump) := by
  rw [List.countP_append] at hroom
  have hfresh : (start { name } settings method).store.Reachable := .fresh name
  refine hasRoom_visitAll hfresh ⟨hroom, fun record hrecord ↦ ?_⟩
  cases (LineTable.find?_empty line).symm.trans hrecord

theorem Follows.exists_visitAll {pass : MethodPass} {active : Bool} {open? : Option Cleanup.Segment}
    (hpass : pass.Follows active open?) (instructions : List Instruction) :
    ∃ last?, (pass.visitAll instructions).Follows active last? := by
  induction instructions generalizing pass open? with
  | nil => exact ⟨open?, hpass⟩
  | cons instruction rest ih =>
    obtain ⟨opened, rfl⟩ | hmarker := instruction.eq_marker_or
    · exact ih (hpass.visit_marker opened).1
    · exact ih (hpass.visit_instruction hmarker).1

theorem exists_follows_after (name : String) (settings : Settings) (method : MethodInfo)
    (events : List Instruction) :
    ∃ open?, (after name settings method events).Follows
      (settings.filters.tryWithResources && Cleanup.filter.applicable method) open? :=
  (follows_start (.fresh name) settings method).exists_visitAll events

/-- A method that the cleanup filter does not watch loses nothing. -/
theorem retractions_after_of_unwatched
    (hunwatched : (settings.filters.tryWithResources && Cleanup.filter.applicable method) = false)
    (events more : List Instruction) :
    (after name settings method events).retractions more = [] := by
  obtain ⟨open?, hfollows⟩ := exists_follows_after name settings method events
  have hwatches := hfollows.watches
  rw [hunwatched] at hwatches
  have hfilters : (after name settings method events).filters = {} := by
    generalize (after name settings method events).filters = filters at hwatches
    cases hwatches
    rfl
  rw [retractions, hfilters, FilterChain.flatten_callsOf_empty]

/-- As long as nothing is retracted of the line, the declared jump stays where it was put. -/
theorem exists_jump_after {before between : List Instruction} {instruction : Instruction}
    (hroom : (before ++ [instruction]).countP Instruction.isConditionalJump ≤ UInt32.size)
    (hdeclared : (after name settings method before).declaredJump? instruction = some (line, id))
    (hquiet : ∀ call ∈ (after name settings method (before ++ [instruction])).retractions between,
      call.line ≠ line) :
    ∃ (slot : Nat) (later : LineRecord), slot < UInt32.size ∧ UInt32.ofNat slot = id ∧
      (after name settings method (before ++ instruction :: between)).store.line? line =
        some later ∧ later.jumps[slot]? = some { id } := by
  obtain ⟨open?, hfollows⟩ := exists_follows_after name settings method before
  have hconditional := (declaredJump?_eq_some_iff.mp hdeclared).1.1
  obtain ⟨record, hrecord, rfl, hvisited⟩ := line?_visit_of_declaredJump? (reachable_after before)
    (hfollows.watches.calls_of_isConditionalJump hconditional) hdeclared
  obtain ⟨hpositional, hsize⟩ := (hasRoom_after hroom).record record hrecord
  rw [List.countP_singleton, if_pos hconditional] at hsize
  have hnext : (after name settings method (before ++ [instruction])).store.line? line =
      some (record.addJump (UInt32.ofNat record.jumps.size)) := by
    rw [after_append]
    exact hvisited
  obtain ⟨later, hlater, hgrows⟩ := growsTo_visitAll (reachable_after _) hquiet hnext
  refine ⟨record.jumps.size, later, hsize, rfl, ?_, hgrows.jump_eq ?_⟩
  · rw [← hlater, ← after_append, List.append_assoc, List.singleton_append]
  · rw [LineRecord.addJump_of_positional hpositional hsize]
    exact Array.getElem?_push_size

/-- An id is given away a second time only when something was retracted of the line. -/
theorem exists_retraction_of_same_id {before between later : List Instruction}
    {first second : Instruction}
    (hroom : (before ++ first :: between ++ second :: later).countP
      Instruction.isConditionalJump ≤ UInt32.size)
    (hfirst : (after name settings method before).declaredJump? first = some (line, id))
    (hsecond : (after name settings method (before ++ first :: between)).declaredJump? second =
      some (line, id)) :
    ∃ call ∈ (after name settings method (before ++ [first])).retractions between,
      call.line = line := by
  by_contra hnone
  have hquiet (call : Retraction)
      (hcall : call ∈ (after name settings method (before ++ [first])).retractions between) :
      call.line ≠ line := fun hline ↦ hnone ⟨call, hcall, hline⟩
  have hcount : (before ++ [first]).countP Instruction.isConditionalJump ≤ UInt32.size := by
    rw [List.append_assoc, List.cons_append, List.append_cons, List.countP_append] at hroom
    omega
  obtain ⟨slot, found, hslot, hid, hfound, hjump⟩ := exists_jump_after hcount hfirst hquiet
  obtain ⟨⟨hconditional, -⟩, -, record, hrecord, hsame⟩ := declaredJump?_eq_some_iff.mp hsecond
  obtain rfl : found = record := Option.some.inj (hfound.symm.trans hrecord)
  have hsize := ((hasRoom_after hroom).record found hfound).2
  rw [Instruction.countP_isConditionalJump_cons, hconditional, Bool.toNat_true] at hsize
  -- the second id counts the first jump
  have hlt := (Array.getElem?_eq_some_iff.mp hjump).1
  have hnat := congrArg UInt32.toNat (hid.trans hsame.symm)
  rw [UInt32.toNat_ofNat_of_lt' hslot, UInt32.toNat_ofNat_of_lt' (by omega)] at hnat
  omega

theorem watched_of_retraction {events more : List Instruction} {call : Retraction}
    (hcall : call ∈ (after name settings method events).retractions more) :
    settings.filters.tryWithResources = true ∧
      (method.classVersion = 0 ∨ 51 ≤ method.classVersion) := by
  cases hwatched : settings.filters.tryWithResources && Cleanup.filter.applicable method with
  | false =>
    rw [retractions_after_of_unwatched hwatched] at hcall
    exact absurd hcall List.not_mem_nil
  | true => exact ((Bool.and_eq_true _ _).mp hwatched).imp_right (Cleanup.applicable_iff method).mp

/-- An id that a jump is declared under is that of no jump of the line, and from then on it leads to
a record of its own. It does so, and no other jump of the line is declared under it, until something
of the line is retracted, which only happens in a method that the cleanup filter watches. -/
theorem declared_id_until_retraction {before rest : List Instruction} {instruction : Instruction}
    (hroom : (before ++ instruction :: rest).countP Instruction.isConditionalJump ≤ UInt32.size)
    (hdeclared : (after name settings method before).declaredJump? instruction = some (line, id)) :
    ((after name settings method before).store.line? line).bind (·.jump? id) = none ∧
    (∀ between later, rest = between ++ later →
      (∀ call ∈ (after name settings method (before ++ [instruction])).retractions between,
        call.line ≠ line) →
      ((after name settings method (before ++ instruction :: between)).store.line? line).bind
        (·.jump? id) = some { id }) ∧
    (∀ between second later, rest = between ++ second :: later →
      (after name settings method (before ++ instruction :: between)).declaredJump? second =
        some (line, id) →
      settings.filters.tryWithResources = true ∧
        (method.classVersion = 0 ∨ 51 ≤ method.classVersion) ∧
        ∃ call ∈ (after name settings method (before ++ [instruction])).retractions between,
          call.line = line) := by
  refine ⟨?_, fun between later hrest hquiet ↦ ?_, fun between second later hrest hsecond ↦ ?_⟩
  · obtain ⟨⟨hconditional, -⟩, -, record, hrecord, rfl⟩ := declaredJump?_eq_some_iff.mp hdeclared
    obtain ⟨hpositional, hsize⟩ := (hasRoom_after hroom).record record hrecord
    rw [Instruction.countP_isConditionalJump_cons, hconditional, Bool.toNat_true] at hsize
    rw [hrecord, Option.bind_some]
    exact hpositional.jump?_size (by omega)
  · have hcount : (before ++ [instruction]).countP Instruction.isConditionalJump ≤
        UInt32.size := by
      rw [List.append_cons, List.countP_append] at hroom
      omega
    obtain ⟨slot, found, hslot, rfl, hfound, hjump⟩ := exists_jump_after hcount hdeclared hquiet
    rw [hrest, ← List.cons_append, ← List.append_assoc] at hroom
    have hpositional := ((hasRoom_after hroom).record found hfound).1
    rw [hfound, Option.bind_some]
    exact hpositional.jump?_eq hjump hslot
  · rw [hrest, ← List.cons_append, ← List.append_assoc] at hroom
    obtain ⟨call, hcall, hline⟩ := exists_retraction_of_same_id hroom hdeclared hsecond
    obtain ⟨henabled, hversion⟩ := watched_of_retraction hcall
    exact ⟨henabled, hversion, call, hcall, hline⟩

/-- The null check of a resource and the jump behind it are both declared as jump 0 of line 7, and
the call that takes the first one back stands between them. -/
theorem declared_id_until_retraction_of_null_check :
    let method : MethodInfo := ⟨"C", "m", "()V", 52⟩
    let before : List Instruction := [.marker 7, .aload 1]
    let closing : List Instruction := [.aload 1, .invokeVirtual "java/io/Reader" "close" "()V"]
    let between : List Instruction := closing ++ [.jumpAnywhere .goto, .iload 2]
    (after "C" {} method before).declaredJump? (.jumpAnywhere .ifNull) = some (7, 0) ∧
      ((after "C" {} method (before ++ .jumpAnywhere .ifNull :: closing)).store.line? 7).bind
        (·.jump? 0) = some { id := 0 } ∧
      ∃ call ∈ (after "C" {} method (before ++ [.jumpAnywhere .ifNull])).retractions between,
        call.line = 7 := by
  intro method before closing between
  have hdeclared : (after "C" {} method before).declaredJump? (.jumpAnywhere .ifNull) =
      some (7, 0) := by decide +kernel
  let rest : List Instruction := between ++ [.jumpAnywhere .ifEq]
  have hroom : (before ++ Instruction.jumpAnywhere .ifNull :: rest).countP
      Instruction.isConditionalJump ≤ UInt32.size := by decide
  obtain ⟨-, hstays, hagain⟩ := declared_id_until_retraction hroom hdeclared
  refine ⟨hdeclared, hstays closing _ (List.append_assoc _ _ _) (by decide +kernel), ?_⟩
  exact (hagain between (.jumpAnywhere .ifEq) [] rfl (by decide +kernel)).2.2

/-- The jump behind a null check that was taken back is declared under the id of the null check, and
a jump of a line that was dropped and marked again under the id of a jump that was there before. -/
theorem declared_id_repeated :
    let method : MethodInfo := ⟨"C", "m", "()V", 52⟩
    let close : Instruction := .invokeVirtual "java/io/Reader" "close" "()V"
    let checked : List Instruction := [.marker 7, .aload 1, .jumpAnywhere .ifNull, .aload 1, close,
      .jumpAnywhere .goto, .iload 2]
    let dropped : List Instruction := [.marker 7, .iload 1, .jumpAnywhere .ifEq, .marker 7,
      .aload 1, close, .marker 7, .iload 2]
    (after "C" {} method (checked.take 2)).declaredJump? (.jumpAnywhere .ifNull) = some (7, 0) ∧
      (after "C" {} method checked).declaredJump? (.jumpAnywhere .ifEq) = some (7, 0) ∧
      ((after "C" {} method (checked ++ [.jumpAnywhere .ifEq])).store.hitJump 7 0 true).line? 7 =
        some { line := 7, signature := "m()V", jumps := #[{ id := 0, taken := ⟨1⟩ }] } ∧
      (after "C" {} method (dropped.take 2)).declaredJump? (.jumpAnywhere .ifEq) = some (7, 0) ∧
      (after "C" {} method dropped).declaredJump? (.jumpAnywhere .ifNe) = some (7, 0) := by
  decide +kernel

end Run

end MethodPass

end JvmCoverage
