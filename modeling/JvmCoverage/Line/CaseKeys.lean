/-!
# Case keys

A switch dispatches on listed keys or on every key of a range. `CaseKeys.arity` counts its arms
without the default, `CaseKeys.arm?` finds the arm of a run-time key.
-/

set_option autoImplicit false
set_option relaxedAutoImplicit false

namespace JvmCoverage

/-- The keys of a switch. -/
inductive CaseKeys
  | listed (keys : List Int32)
  /-- Every key from `min` to `max`, both included. -/
  | range (min max : Int32)
  deriving DecidableEq, Repr

namespace CaseKeys

/-- The number of arms besides the default; an inverted range has none. -/
def arity : CaseKeys → Nat
  | listed keys => keys.length
  | range min max => (max.toInt - min.toInt + 1).toNat

/-- The arm that `key` selects, `none` for the default. A repeated key selects its first arm. -/
def arm? (keys : CaseKeys) (key : Int32) : Option Nat :=
  match keys with
  | listed keys => keys.idxOf? key
  | range min max => if min ≤ key ∧ key ≤ max then some (key.toInt - min.toInt).toNat else none

end CaseKeys

end JvmCoverage
