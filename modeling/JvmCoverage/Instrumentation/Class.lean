import JvmCoverage.Instrumentation.Method
/-!
# Instrumenting a class

A `ClassPass` takes the methods of a class one after another. In sampling mode the class gets its
mask when the pass is finished, because only then the highest line is known.
-/

set_option autoImplicit false
set_option relaxedAutoImplicit false

namespace JvmCoverage

/-- A pass over the methods of a class. -/
structure ClassPass where
  store : ClassStore
  settings : Settings
  /-- The number of methods that were begun. -/
  methodCount : Nat := 0

namespace ClassPass

/-- Begins a method. -/
def beginMethod (pass : ClassPass) (method : MethodInfo) : MethodPass :=
  .start pass.store pass.settings method

/-- Takes a store back from a method. -/
def endMethod (pass : ClassPass) (store : ClassStore) : ClassPass :=
  { pass with store, methodCount := pass.methodCount + 1 }

/-- Walks a whole method. -/
def instrument (pass : ClassPass) (method : MethodInfo) (instructions : List Instruction) :
    ClassPass × MethodOutcome :=
  let (store, outcome) := ((pass.beginMethod method).visitAll instructions).finish
  (pass.endMethod store, outcome)

/-- Walks events of a method that is never ended, so that its last line stays open. -/
def instrumentOpen (pass : ClassPass) (method : MethodInfo) (instructions : List Instruction) :
    ClassPass :=
  pass.endMethod ((pass.beginMethod method).visitAll instructions).store

/-- Ends the pass. -/
def finish (pass : ClassPass) : ClassStore :=
  match pass.settings.mode with
  | .sampling => pass.store.openMask pass.store.maxLine
  | .tracing => pass.store

end ClassPass

end JvmCoverage
