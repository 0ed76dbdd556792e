import JvmCoverage.Filter.Chain
import JvmCoverage.Proofs.Cleanup.Grammar
/-!
# Which lines the cleanup filter retracts

A marker opens a `Segment` of the method, and the next marker or the end of the method closes it.
`IsCleanup` says of the events of a segment that each of them spells a letter and that together they
spell a word of `cleanupCode`. `droppedLines_callsOf` is the main statement: over any method the
filter drops the line of a segment at the event that closes it when the segment is cleanup code, and
drops no line otherwise and at no other event.

The filter goes on reading a line that it has given up, so its stage alone does not say what the
line holds. `Progress.Follows` is what it knows: as long as the automaton has read the whole
segment the line is not tainted and the stages agree, and from the first event that it cannot read
the line stays tainted, however well the rest of the line may match.
-/

set_option autoImplicit false
set_option relaxedAutoImplicit false

namespace JvmCoverage

/-! ### Runs of a filter chain -/

namespace FilterChain

variable {κ : Type}

/-- The calls that each of the signals causes, in order. -/
def callsOf (chain : FilterChain κ) : List Signal → List (List κ)
  | [] => []
  | signal :: rest => (chain.deliver signal).2 :: (chain.deliver signal).1.callsOf rest

end FilterChain

namespace Cleanup

/-! ### Letters of instructions -/

/-- The letter that an instruction of cleanup code spells. -/
inductive Spells : Instruction → Letter → Prop
  | store (slot : UInt16) : Spells (.access .store true slot) .store
  | load (slot : UInt16) : Spells (.access .load true slot) .load
  | checkNull (target : UInt32) : Spells (.jump .ifNull target) .checkNull
  | goto (target : UInt32) : Spells (.jump .goto target) .goto
  | closeVirtual (owner : String) (onInterface : Bool) :
    Spells (.call ⟨.invokeVirtual, owner, "close", "()V", onInterface⟩) .close
  | closeInterface (owner : String) (onInterface : Bool) :
    Spells (.call ⟨.invokeInterface, owner, "close", "()V", onInterface⟩) .close
  | addSuppressed (onInterface : Bool) :
    Spells (.call ⟨.invokeVirtual, "java/lang/Throwable", "addSuppressed",
      "(Ljava/lang/Throwable;)V", onInterface⟩) .addSuppressed
  | throw : Spells (.plain 0xbf) .throw

theorem letter?_of_spells {instruction : Instruction} {letter : Letter}
    (hspells : Spells instruction letter) : instruction.signal.letter? = some letter := by
  cases hspells <;> simp [Instruction.signal, Signal.letter?, MethodCall.isClose,
    MethodCall.isAddSuppressed, MethodCall.calls, Opcode.athrow]

theorem spells_of_letter?_call {call : MethodCall} {letter : Letter}
    (hletter : (Signal.call call).letter? = some letter) : Spells (.call call) letter := by
  obtain ⟨kind, owner, name, descriptor, onInterface⟩ := call
  simp only [Signal.letter?] at hletter
  split at hletter
  · next hclose =>
    cases hletter
    simp only [MethodCall.isClose, MethodCall.calls, Bool.and_eq_true, Bool.or_eq_true,
      decide_eq_true_eq] at hclose
    obtain ⟨rfl | rfl, rfl, rfl⟩ := hclose
    · exact .closeVirtual owner onInterface
    · exact .closeInterface owner onInterface
  · split at hletter
    · next hsuppressed =>
      cases hletter
      simp only [MethodCall.isAddSuppressed, MethodCall.calls, Bool.and_eq_true,
        decide_eq_true_eq] at hsuppressed
      obtain ⟨⟨rfl, rfl⟩, rfl, rfl⟩ := hsuppressed
      exact .addSuppressed onInterface
    · cases hletter

theorem spells_of_letter? {instruction : Instruction} {letter : Letter}
    (hletter : instruction.signal.letter? = some letter) : Spells instruction letter := by
  cases instruction with
  | access kind reference slot =>
    cases kind <;> cases reference <;> cases hletter
    · exact .load slot
    · exact .store slot
  | jump kind target =>
    cases kind <;> cases hletter
    · exact .goto target
    · exact .checkNull target
  | call call => exact spells_of_letter?_call hletter
  | plain opcode =>
    by_cases hthrow : opcode = Opcode.athrow
    · subst hthrow
      cases hletter
      exact .throw
    · simp [Instruction.signal, Signal.letter?, hthrow] at hletter
  | _ => cases hletter

/-! ### Cleanup code -/

/-- The events spell a word of the grammar. -/
def IsCleanup (body : List Instruction) : Prop :=
  ∃ word, List.Forall₂ Spells body word ∧ word ∈ cleanupCode.matches'

/-- The stage that the automaton reaches with a further event. -/
def advance? (stage? : Option Stage) (instruction : Instruction) : Option Stage :=
  stage?.bind fun stage ↦ instruction.signal.letter?.bind stage.next?

/-- The stage that the automaton reaches over events, unless one of them stops it. -/
def reached? (body : List Instruction) : Option Stage := body.foldl advance? (some .initial)

@[simp] theorem reached?_append_singleton (body : List Instruction) (instruction : Instruction) :
    reached? (body ++ [instruction]) = advance? (reached? body) instruction := by
  simp [reached?]

theorem foldl_advance?_none (body : List Instruction) : body.foldl advance? none = none := by
  induction body with
  | nil => rfl
  | cons instruction body ih => exact ih

theorem foldl_advance?_eq_some_iff (body : List Instruction) (stage last : Stage) :
    body.foldl advance? (some stage) = some last ↔
      ∃ word, List.Forall₂ Spells body word ∧ stage.read? word = some last := by
  induction body generalizing stage with
  | nil => simp [Stage.read?]
  | cons instruction body ih =>
    rw [List.foldl_cons]
    constructor
    · intro hlast
      cases hletter : instruction.signal.letter? with
      | none => simp [advance?, hletter, foldl_advance?_none] at hlast
      | some letter =>
        cases hnext : stage.next? letter with
        | none => simp [advance?, hletter, hnext, foldl_advance?_none] at hlast
        | some next =>
          have hrest : body.foldl advance? (some next) = some last := by
            simpa [advance?, hletter, hnext] using hlast
          obtain ⟨word, hword, hread⟩ := (ih next).mp hrest
          refine ⟨letter :: word, .cons (spells_of_letter? hletter) hword, ?_⟩
          simp [Stage.read?, hnext, hread]
    · rintro ⟨word, hword, hread⟩
      cases hword with
      | @cons _ letter _ word hspells hword =>
        obtain ⟨next, hnext, hread⟩ := Option.bind_eq_some_iff.mp hread
        have hstep : advance? (some stage) instruction = some next := by
          simp [advance?, letter?_of_spells hspells, hnext]
        rw [hstep]
        exact (ih next).mpr ⟨word, hword, hread⟩

theorem isCleanup_iff (body : List Instruction) :
    IsCleanup body ↔ (reached? body).any Stage.isAccepting = true := by
  rw [Option.any_eq_true]
  constructor
  · rintro ⟨word, hword, hgrammar⟩
    rw [← accepted_initial] at hgrammar
    obtain ⟨last, hread, haccepting⟩ := (Option.any_eq_true _ _).mp hgrammar
    exact ⟨last, (foldl_advance?_eq_some_iff body .initial last).mpr ⟨word, hword, hread⟩,
      haccepting⟩
  · rintro ⟨last, hreached, haccepting⟩
    obtain ⟨word, hword, hread⟩ := (foldl_advance?_eq_some_iff body .initial last).mp hreached
    refine ⟨word, hword, ?_⟩
    rw [← accepted_initial]
    exact (Option.any_eq_true _ _).mpr ⟨last, hread, haccepting⟩

instance : DecidablePred IsCleanup := fun body ↦ decidable_of_iff _ (isCleanup_iff body).symm

/-! ### Segments -/

/-- The events from a marker up to the next one or the end of the method. -/
structure Segment where
  line : UInt32
  body : List Instruction := []

namespace Segment

/-- The segment with a further event. -/
def extend (segment : Segment) (instruction : Instruction) : Segment :=
  { segment with body := segment.body ++ [instruction] }

/-- What is retracted when the segment closes. -/
def retracted (segment : Segment) : List UInt32 :=
  if IsCleanup segment.body then [segment.line] else []

end Segment

/-- The lines to retract at each event of a method and at its end, where `open?` is the segment
that is open before the first of these events. -/
def closings (open? : Option Segment) : List Instruction → List (List UInt32)
  | [] => [open?.elim [] Segment.retracted]
  | .marker line :: rest => open?.elim [] Segment.retracted :: closings (some { line }) rest
  | instruction :: rest => [] :: closings (open?.map (·.extend instruction)) rest

/-- The line that a retraction drops the record of. -/
def droppedLine? : Retraction → Option UInt32
  | .dropLine line => some line
  | .dropLastJump _ => none

/-- The lines whose records are dropped, in the order of the calls. -/
def droppedLines (calls : List Retraction) : List UInt32 := calls.filterMap droppedLine?

/-! ### The filter along a segment -/

namespace Progress

/-- The recognizer is where the automaton is, and the line is tainted once that has stopped. -/
def Agrees (progress : Progress) : Option Stage → Prop
  | some stage => progress.tainted = false ∧ progress.stage = stage
  | none => progress.tainted = true

/-- What the recognizer knows of the open segment. -/
def Follows (progress : Progress) : Option Segment → Prop
  | some segment => progress.line = some segment.line ∧ progress.Agrees (reached? segment.body)
  | none => progress.line = none

theorem toList_retractable? {progress : Progress} {open? : Option Segment}
    (hfollows : progress.Follows open?) :
    progress.retractable?.toList = open?.elim [] Segment.retracted := by
  cases open? with
  | none =>
    have hline : progress.line = none := hfollows
    simp [retractable?, hline]
  | some segment =>
    obtain ⟨hline, hagrees⟩ := hfollows
    simp only [Option.elim_some, Segment.retracted, isCleanup_iff, retractable?, hline]
    cases hreached : reached? segment.body with
    | none =>
      rw [hreached] at hagrees
      simp [show progress.tainted = true from hagrees]
    | some stage =>
      rw [hreached] at hagrees
      obtain ⟨htainted, rfl⟩ := hagrees
      cases haccepting : progress.stage.isAccepting <;> simp [htainted, haccepting]

theorem advance_fst (progress : Progress) (letter : Letter) (stage : Stage) :
    (progress.advance letter stage).1.line = progress.line ∧
      (progress.advance letter stage).1.tainted = progress.tainted ∧
      (progress.advance letter stage).1.stage = stage := by
  rw [advance.eq_def]
  split <;> exact ⟨rfl, rfl, rfl⟩

theorem line_read (progress : Progress) (letter? : Option Letter) :
    (progress.read letter?).1.line = progress.line := by
  cases letter? with
  | none => rfl
  | some letter =>
    cases hnext : progress.stage.next? letter with
    | none => simp [read, hnext, taint]
    | some next => simp [read, hnext, advance_fst]

/-- The automaton may start again on a line that is tainted, but the line stays tainted. -/
theorem agrees_read {progress : Progress} {stage? : Option Stage} (hagrees : progress.Agrees stage?)
    (letter? : Option Letter) :
    (progress.read letter?).1.Agrees (stage?.bind fun stage ↦ letter?.bind stage.next?) := by
  cases letter? with
  | none => cases stage? <;> rfl
  | some letter =>
    cases hnext : progress.stage.next? letter with
    | none =>
      have htaint : (progress.read (some letter)).1 = progress.taint := by simp [read, hnext]
      rw [htaint]
      cases stage? with
      | none => rfl
      | some stage =>
        obtain ⟨-, rfl⟩ := hagrees
        rw [Option.bind_some, Option.bind_some, hnext]
        rfl
    | some next =>
      have hadvance : (progress.read (some letter)).1 = (progress.advance letter next).1 := by
        simp [read, hnext]
      obtain ⟨-, htainted, hstage⟩ := progress.advance_fst letter next
      rw [hadvance]
      cases stage? with
      | none => exact htainted.trans hagrees
      | some stage =>
        obtain ⟨huntainted, rfl⟩ := hagrees
        rw [Option.bind_some, Option.bind_some, hnext]
        exact ⟨htainted.trans huntainted, hstage⟩

theorem droppedLines_read (progress : Progress) (letter? : Option Letter) :
    droppedLines (progress.read letter?).2 = [] := by
  cases letter? with
  | none => rfl
  | some letter =>
    cases hnext : progress.stage.next? letter with
    | none => simp [read, hnext, droppedLines]
    | some next =>
      simp only [read, hnext, advance]
      split
      · rfl
      · cases progress.line with
        | none => rfl
        | some line => simp [droppedLines, droppedLine?]
      · rfl

/-- Reading an event within a segment extends the segment and drops no line. -/
theorem follows_read {progress : Progress} {open? : Option Segment}
    (hfollows : progress.Follows open?) (instruction : Instruction) :
    (progress.read instruction.signal.letter?).1.Follows (open?.map (·.extend instruction)) := by
  cases open? with
  | none => exact (progress.line_read _).trans hfollows
  | some segment =>
    obtain ⟨hline, hagrees⟩ := hfollows
    refine ⟨(progress.line_read _).trans hline, ?_⟩
    show (progress.read instruction.signal.letter?).1.Agrees
      (reached? (segment.body ++ [instruction]))
    rw [reached?_append_singleton]
    exact agrees_read hagrees instruction.signal.letter?

/-- A marker opens a segment of its own line, whatever was open before. -/
theorem follows_line (progress : Progress) (line : UInt32) :
    (progress.step (.line line)).1.Follows (some { line }) :=
  ⟨rfl, rfl, rfl⟩

theorem droppedLines_line (progress : Progress) (line : UInt32) :
    droppedLines (progress.step (.line line)).2 = progress.retractable?.toList := by
  show droppedLines (progress.retractable?.toList.map .dropLine) = progress.retractable?.toList
  cases progress.retractable? <;> rfl

theorem droppedLines_finish (progress : Progress) :
    droppedLines (progress.step .finish).2 = progress.retractable?.toList := by
  unfold step
  cases progress.retractable? <;> rfl

end Progress

/-! ### The filter over a method -/

/-- The chain of nothing but the cleanup filter, in the middle of a method. -/
def chainAt (progress : Progress) : FilterChain Retraction := ⟨[⟨filter, progress⟩]⟩

theorem deliver_chainAt (progress : Progress) (signal : Signal) :
    (chainAt progress).deliver signal =
      (chainAt (progress.step signal).1, (progress.step signal).2) := by
  simp [chainAt, FilterChain.deliver, RunningFilter.step, filter]

theorem map_droppedLines_callsOf (progress : Progress) (open? : Option Segment)
    (hfollows : progress.Follows open?) (instructions : List Instruction) :
    ((chainAt progress).callsOf (instructions.map Instruction.signal ++ [.finish])).map
      droppedLines = closings open? instructions := by
  induction instructions generalizing progress open? with
  | nil =>
    simp only [List.map_nil, List.nil_append, FilterChain.callsOf, deliver_chainAt, closings,
      List.map_cons]
    rw [Progress.droppedLines_finish, Progress.toList_retractable? hfollows]
  | cons instruction rest ih =>
    simp only [List.map_cons, List.cons_append, FilterChain.callsOf, deliver_chainAt]
    cases instruction with
    | marker line =>
      rw [Instruction.signal, Progress.droppedLines_line, Progress.toList_retractable? hfollows,
        ih _ _ (progress.follows_line line), closings]
    | _ =>
      -- A signal of the middle of a segment is read, which drops no line.
      exact congrArg₂ List.cons (progress.droppedLines_read _)
        (ih _ _ (Progress.follows_read hfollows _))

/-- Over any method, the cleanup filter drops the line of a segment at the event that closes it when
the segment is cleanup code, and drops no other line. -/
theorem droppedLines_callsOf (instructions : List Instruction) :
    ((FilterChain.ofList [filter]).callsOf (instructions.map Instruction.signal ++ [.finish])).map
      droppedLines = closings none instructions :=
  map_droppedLines_callsOf {} none rfl instructions

/-- Line 7 closes a resource after a null check, and line 8 does something else. -/
example : closings none [.marker 7, .aload 1, .jump .ifNull 20, .aload 1,
      .invokeInterface "java/io/Closeable" "close" "()V", .marker 8, .iload 2] =
    [[], [], [], [], [], [7], [], []] := by decide

end Cleanup

end JvmCoverage
