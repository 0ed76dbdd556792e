import JvmCoverage.Class.Basic
import JvmCoverage.Filter.Chain
/-!
# Instrumenting a method

A `MethodPass` walks the events of a method. It makes a record for every line that is marked,
declares the jumps and switches of the line when branches are tracked, and lets the filters retract
what they recognize. A line is closed by the next marker, and the filters hear of that marker before
its own line is recorded.
-/

set_option autoImplicit false
set_option relaxedAutoImplicit false

namespace JvmCoverage

open Std (ExtTreeSet)

namespace ClassStore

def retract (store : ClassStore) : Retraction → ClassStore
  | .dropLine line => store.removeLine line
  | .dropLastJump line => store.dropLastJump line

def retractAll (store : ClassStore) (retractions : List Retraction) : ClassStore :=
  retractions.foldl retract store

/-- Declares a jump under the number of jumps that the line has. -/
def declareJump (store : ClassStore) (line : UInt32) : ClassStore :=
  match store.line? line with
  | some record => store.addJump line (UInt32.ofNat record.jumps.size)
  | none => store

/-- Declares a switch under the number of switches that the line has. -/
def declareSwitch (store : ClassStore) (line : UInt32) (keys : CaseKeys) : ClassStore :=
  match store.line? line with
  | some record => store.addSwitch line (UInt32.ofNat record.switches.size) keys
  | none => store

end ClassStore

/-- What a pass left of the lines that a method marked. -/
structure MethodOutcome where
  signature : String
  /-- The lines that have a record, in ascending order. -/
  lines : List UInt32
  /-- The lines that have none any more, in ascending order. -/
  retracted : List UInt32
  deriving DecidableEq, Repr

/-- A pass over the events of a method. -/
structure MethodPass where
  store : ClassStore
  settings : Settings
  signature : String
  filters : FilterChain Retraction
  currentLine : Option UInt32 := none
  /-- The lines that were marked. -/
  marked : ExtTreeSet UInt32 := ∅

namespace MethodPass

/-- Starts a pass with the filters that apply to the method. -/
def start (store : ClassStore) (settings : Settings) (method : MethodInfo) : MethodPass where
  store := store
  settings := settings
  signature := method.signature
  filters := (FilterChain.ofSettings settings.filters).forMethod method

/-- Lets the filters react to a signal. -/
def deliver (pass : MethodPass) (signal : Signal) : MethodPass :=
  let (filters, retractions) := pass.filters.deliver signal
  { pass with filters, store := pass.store.retractAll retractions }

/-- Makes `line` the current line. -/
def openLine (pass : MethodPass) (line : UInt32) : MethodPass :=
  { pass with
    store := pass.store.ensureLine line pass.signature
    currentLine := some line
    marked := pass.marked.insert line }

/-- Declares a branch on the current line, when branches are tracked. -/
def declare (pass : MethodPass) (declareOn : ClassStore → UInt32 → ClassStore) : MethodPass :=
  match pass.currentLine with
  | some line =>
    if pass.settings.countsBranches then { pass with store := declareOn pass.store line } else pass
  | none => pass

/-- Records what an instruction declares. -/
def record (pass : MethodPass) : Instruction → MethodPass
  | .jump kind _ => if kind.isConditional then pass.declare .declareJump else pass
  | .tableSwitch min max => pass.declare (·.declareSwitch · (.range min max))
  | .lookupSwitch keys => pass.declare (·.declareSwitch · (.listed keys))
  | _ => pass

/-- Processes one event. -/
def visit (pass : MethodPass) (instruction : Instruction) : MethodPass :=
  match instruction with
  | .marker line => (pass.deliver instruction.signal).openLine line
  | _ => (pass.record instruction).deliver instruction.signal

def visitAll (pass : MethodPass) (instructions : List Instruction) : MethodPass :=
  instructions.foldl visit pass

/-- Which of the marked lines have a record. -/
def outcome (pass : MethodPass) : MethodOutcome where
  signature := pass.signature
  lines := pass.marked.toList.filter pass.store.containsLine
  retracted := pass.marked.toList.filter (!pass.store.containsLine ·)

/-- Ends the method and lets the filters close its last line. -/
def finish (pass : MethodPass) : ClassStore × MethodOutcome :=
  let pass := pass.deliver .finish
  (pass.store, pass.outcome)

end MethodPass

end JvmCoverage
