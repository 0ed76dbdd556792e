import JvmCoverage.Filter.Cleanup
import JvmCoverage.Settings.Basic
/-!
# Filter chains

A `FilterChain` runs several filters over one method. Each signal goes to every filter, and the
calls of the filters are issued in the order of the chain. No filter sees the calls of another, so
each behaves as if it ran alone.
-/

set_option autoImplicit false
set_option relaxedAutoImplicit false

namespace JvmCoverage

/-- The filters of a method, in order. -/
structure FilterChain (κ : Type) where
  filters : List (RunningFilter κ) := []

namespace FilterChain

variable {κ ι : Type}

/-- The chain of the given filters before the first signal. -/
def ofList (filters : List (IdiomFilter κ)) : FilterChain κ := ⟨filters.map .start⟩

/-- The filters that the settings enable. -/
def ofSettings (settings : FilterSettings) : FilterChain Retraction :=
  .ofList (if settings.tryWithResources then [Cleanup.filter] else [])

def push (chain : FilterChain κ) (filter : IdiomFilter κ) : FilterChain κ :=
  ⟨chain.filters ++ [.start filter]⟩

def map (f : κ → ι) (chain : FilterChain κ) : FilterChain ι := ⟨chain.filters.map (·.map f)⟩

/-- The chain of the filters that take part in a method. -/
def forMethod (chain : FilterChain κ) (method : MethodInfo) : FilterChain κ :=
  ⟨chain.filters.filter (·.filter.applicable method)⟩

def length (chain : FilterChain κ) : Nat := chain.filters.length

def isEmpty (chain : FilterChain κ) : Bool := chain.filters.isEmpty

def names (chain : FilterChain κ) : List String := chain.filters.map (·.filter.name)

/-- Delivers a signal to every filter and collects their calls. -/
def deliver (chain : FilterChain κ) (signal : Signal) : FilterChain κ × List κ :=
  let steps := chain.filters.map (·.step signal)
  (⟨steps.map Prod.fst⟩, steps.flatMap Prod.snd)

end FilterChain

end JvmCoverage
