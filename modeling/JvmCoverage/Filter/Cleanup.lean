import JvmCoverage.Filter.Basic
/-!
# The resource cleanup filter

For a `try` statement with resources the compiler generates the null checks and the `close` calls
of the resources, and the bookkeeping of suppressed exceptions, on the line of the resource or of
the keyword. `Cleanup.filter` recognizes that code and retracts lines that hold nothing else.

The recognizer reads letters: `Signal.letter?` gives the letter of a signal, and `Stage.next?` is
the automaton, whose stages are named for what was read last. A line is retracted when it ends in
an accepting stage and everything on it was matched. An event that the automaton cannot read taints
the line and sends the automaton back to its start. The jumps of null checks are retracted as soon
as the `close` call that they guard is followed by a `goto`.
-/

set_option autoImplicit false
set_option relaxedAutoImplicit false

namespace JvmCoverage

namespace Cleanup

/-- What cleanup code is made of. -/
inductive Letter
  /-- Store of a reference. -/
  | store
  /-- Load of a reference. -/
  | load
  /-- Jump over a resource that is null. -/
  | checkNull
  | goto
  | close
  | addSuppressed
  | throw
  deriving DecidableEq, Repr

end Cleanup

/-- The call closes a resource, whose type may be a class or an interface. -/
def MethodCall.isClose (call : MethodCall) : Bool :=
  (call.kind = .invokeVirtual || call.kind = .invokeInterface) && call.calls "close" "()V"

/-- The call attaches a second exception to the first. -/
def MethodCall.isAddSuppressed (call : MethodCall) : Bool :=
  call.kind = .invokeVirtual && call.owner = "java/lang/Throwable" &&
    call.calls "addSuppressed" "(Ljava/lang/Throwable;)V"

/-- The letter of a signal; `none` for what no cleanup code holds. -/
def Signal.letter? : Signal → Option Cleanup.Letter
  | .access .store true => some .store
  | .access .load true => some .load
  | .jump .ifNull => some .checkNull
  | .jump .goto => some .goto
  | .call invoked =>
    if invoked.isClose then some .close
    else if invoked.isAddSuppressed then some .addSuppressed
    else none
  | .plain opcode => if opcode = Opcode.athrow then some .throw else none
  | _ => none

namespace Cleanup

/-- The stages of the automaton. -/
inductive Stage
  | initial
  | storedPrimary
  | loadedResource
  | checkedResource
  | closed
  | jumped
  | storedSecondary
  | loadedPrimary
  | loadedSecondary
  | suppressed
  | jumpedToRethrow
  | loadedRethrown
  | rethrown
  | closedAfterSuppression
  | jumpedAfterSuppression
  deriving DecidableEq, Repr

namespace Stage

/-- A line of cleanup code can end here. -/
def isAccepting : Stage → Bool
  | closed | jumped | rethrown | jumpedAfterSuppression => true
  | _ => false

/-- The stage after a letter; `none` when the letter does not belong here. -/
def next? : Stage → Letter → Option Stage
  | initial, .store | rethrown, .store => some storedPrimary
  | initial, .load | storedPrimary, .load | checkedResource, .load | closed, .load =>
    some loadedResource
  | loadedResource, .checkNull => some checkedResource
  | loadedResource, .close | checkedResource, .close => some closed
  | closed, .goto => some jumped
  | jumped, .store => some storedSecondary
  | storedSecondary, .load => some loadedPrimary
  | loadedPrimary, .load => some loadedSecondary
  | loadedSecondary, .addSuppressed => some suppressed
  | suppressed, .goto => some jumpedToRethrow
  | suppressed, .load | jumpedToRethrow, .load | closedAfterSuppression, .load =>
    some loadedRethrown
  | loadedRethrown, .throw => some rethrown
  | loadedRethrown, .close => some closedAfterSuppression
  | closedAfterSuppression, .goto => some jumpedAfterSuppression
  | _, _ => none

end Stage

/-- Where the recognizer is in a method. -/
structure Progress where
  stage : Stage := .initial
  /-- Something else than cleanup code was seen on the line. -/
  tainted : Bool := false
  /-- The line that is open, unless none was started or it was retracted at the end. -/
  line : Option UInt32 := none
  /-- Null checks that wait for their `close` call and `goto`. -/
  pendingChecks : UInt32 := 0
  deriving DecidableEq, Repr

namespace Progress

/-- The open line, if it is to be retracted. -/
def retractable? (progress : Progress) : Option UInt32 :=
  if !progress.tainted && progress.stage.isAccepting then progress.line else none

/-- The progress after an event that is no cleanup code. -/
def taint (progress : Progress) : Progress :=
  { progress with stage := .initial, tainted := true, pendingChecks := 0 }

/-- Reads a letter that leads to `stage`. -/
def advance (progress : Progress) (letter : Letter) (stage : Stage) :
    Progress × List Retraction :=
  match progress.stage, letter with
  | .loadedResource, .checkNull =>
    ({ progress with stage, pendingChecks := progress.pendingChecks + 1 }, [])
  | .closed, .goto =>
    ({ progress with stage, pendingChecks := 0 },
      match progress.line with
      | some line => List.replicate progress.pendingChecks.toNat (.dropLastJump line)
      | none => [])
  | _, _ => ({ progress with stage }, [])

/-- Reads an event within a line. -/
def read (progress : Progress) (letter : Option Letter) : Progress × List Retraction :=
  match letter with
  | none => (progress.taint, [])
  | some letter =>
    match progress.stage.next? letter with
    | none => (progress.taint, [])
    | some stage => progress.advance letter stage

/-- Reads a signal. -/
def step (progress : Progress) (signal : Signal) : Progress × List Retraction :=
  match signal with
  | .line line => ({ line := some line }, progress.retractable?.toList.map .dropLine)
  | .finish =>
    match progress.retractable? with
    | some line => ({ progress with line := none }, [.dropLine line])
    | none => (progress, [])
  | signal => progress.read signal.letter?

end Progress

/-- The first class file version whose compilers know `try` with resources. -/
def firstVersion : UInt16 := 51

/-- Retracts lines made of nothing but resource cleanup. A class file of unknown version may hold
such code. -/
def filter : IdiomFilter Retraction where
  name := "try-with-resources"
  applicable method := method.classVersion = 0 || firstVersion ≤ method.classVersion
  State := Progress
  start := {}
  step := Progress.step

end Cleanup

end JvmCoverage
