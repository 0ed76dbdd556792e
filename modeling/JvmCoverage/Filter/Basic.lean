import JvmCoverage.Instruction
/-!
# Line filters

A compiler generates code of its own, and a line that holds nothing else should not show up as
uncovered. An `IdiomFilter` is a state machine that watches the signals of one method and retracts
what was recorded for such lines. Filters are written against any type `κ` of calls, and a filter
that works on coverage issues `Retraction`s.
-/

set_option autoImplicit false
set_option relaxedAutoImplicit false

namespace JvmCoverage

/-- The method that a filter is about to watch. -/
structure MethodInfo where
  className : String
  methodName : String
  descriptor : String
  /-- The major version of the class file, zero when it is unknown. -/
  classVersion : UInt16 := 0
  deriving DecidableEq, Repr

/-- The name of the method followed by its descriptor. -/
def MethodInfo.signature (method : MethodInfo) : String := method.methodName ++ method.descriptor

/-- What a filter asks to be undone. -/
inductive Retraction
  /-- Drop the record of the line. -/
  | dropLine (line : UInt32)
  /-- Drop the jump that was declared last on the line. -/
  | dropLastJump (line : UInt32)
  deriving DecidableEq, Repr

/-- A state machine over the signals of a method that issues calls of type `κ`. -/
structure IdiomFilter (κ : Type) where
  name : String
  /-- The filter takes part in a method. -/
  applicable : MethodInfo → Bool
  State : Type
  start : State
  step : State → Signal → State × List κ

/-- Issues the image of every call. -/
def IdiomFilter.map {κ ι : Type} (f : κ → ι) (filter : IdiomFilter κ) : IdiomFilter ι where
  name := filter.name
  applicable := filter.applicable
  State := filter.State
  start := filter.start
  step state signal :=
    let (state, calls) := filter.step state signal
    (state, calls.map f)

/-- A filter in the middle of a method. -/
structure RunningFilter (κ : Type) where
  filter : IdiomFilter κ
  state : filter.State

namespace RunningFilter

variable {κ ι : Type}

def start (filter : IdiomFilter κ) : RunningFilter κ := ⟨filter, filter.start⟩

def step (running : RunningFilter κ) (signal : Signal) : RunningFilter κ × List κ :=
  let (state, calls) := running.filter.step running.state signal
  (⟨running.filter, state⟩, calls)

def map (f : κ → ι) (running : RunningFilter κ) : RunningFilter ι :=
  ⟨running.filter.map f, running.state⟩

end RunningFilter

end JvmCoverage
