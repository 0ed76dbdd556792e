/-!
# Settings

How executions are counted, whether branches are counted, and which filters run. The defaults count
everything and run every filter.
-/

set_option autoImplicit false
set_option relaxedAutoImplicit false

namespace JvmCoverage

/-- How executions are counted. -/
inductive CountingMode
  /-- Lines and branches are counted in the line records. -/
  | tracing
  /-- Only lines are counted, in the mask of their class. -/
  | sampling
  deriving DecidableEq, Repr, Inhabited

namespace CountingMode

def label : CountingMode → String
  | tracing => "Tracing"
  | sampling => "Sampling"

def ofLabel? : String → Option CountingMode
  | "Tracing" => some tracing
  | "Sampling" => some sampling
  | _ => none

end CountingMode

/-- Which filters run. -/
structure FilterSettings where
  /-- Retract lines made of nothing but resource cleanup. -/
  tryWithResources : Bool := true
  deriving DecidableEq, Repr, Inhabited

/-- The settings that run no filter. -/
def FilterSettings.none : FilterSettings := { tryWithResources := false }

/-- How a class is instrumented. -/
structure Settings where
  mode : CountingMode := .tracing
  /-- Count branches too, which only tracing can. -/
  branchCoverage : Bool := true
  filters : FilterSettings := {}
  deriving DecidableEq, Repr

namespace Settings

instance : Inhabited Settings := ⟨{}⟩

/-- Jumps and switches are recorded. -/
def countsBranches (settings : Settings) : Bool :=
  settings.mode = .tracing && settings.branchCoverage

def withMode (settings : Settings) (mode : CountingMode) : Settings := { settings with mode }

def withBranchCoverage (settings : Settings) (branchCoverage : Bool) : Settings :=
  { settings with branchCoverage }

def withFilters (settings : Settings) (filters : FilterSettings) : Settings :=
  { settings with filters }

def withTryWithResources (settings : Settings) (enabled : Bool) : Settings :=
  { settings with filters := { settings.filters with tryWithResources := enabled } }

end Settings

end JvmCoverage
