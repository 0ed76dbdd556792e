import JvmCoverage.Settings.Basic
import JvmCoverage.Status
/-!
# Settings from configuration values

Settings come out of a parsed configuration text as a `Value`. A structure is given by an object or
by a list. In an object, a missing field takes its default and an unknown field is ignored; a list
holds the fields in order, may stop early, and must not go on too long. An enumeration is given by
the label of a constructor, or by an object whose only entry is that label with the value null.
-/

set_option autoImplicit false
set_option relaxedAutoImplicit false

namespace JvmCoverage

/-- A parsed configuration value. What a number is does not matter, because no setting is one. -/
inductive Value
  | null
  | bool (value : Bool)
  | number
  | string (value : String)
  | list (items : List Value)
  | object (entries : List (String × Value))
  deriving Inhabited

namespace Value

/-- The value of a field: by name in an object, by position in a list that has at most `arity`
items. The outer `none` says that the value is no structure, the inner one that the field is
missing. -/
def field? (value : Value) (arity position : Nat) (name : String) : Option (Option Value) :=
  match value with
  | object entries => some (entries.lookup name)
  | list items => if items.length ≤ arity then some items[position]? else none
  | _ => none

/-- Decodes a field, with a default for a missing one. -/
def decodeField {α : Type} (value : Value) (arity position : Nat) (name : String) (default : α)
    (decode : Value → Option α) : Option α := do
  match ← value.field? arity position name with
  | some item => decode item
  | none => some default

def bool? : Value → Option Bool
  | bool value => some value
  | _ => none

/-- Decodes a constructor from its label. -/
def labelled? {α : Type} (ofLabel? : String → Option α) : Value → Option α
  | string label => ofLabel? label
  | object [(label, null)] => ofLabel? label
  | _ => none

end Value

def Status.ofValue? : Value → Option Status := Value.labelled? Status.ofLabel?

def CountingMode.ofValue? : Value → Option CountingMode := Value.labelled? CountingMode.ofLabel?

def FilterSettings.ofValue? (value : Value) : Option FilterSettings := do
  let tryWithResources ← value.decodeField 1 0 "try_with_resources" true Value.bool?
  some { tryWithResources }

def Settings.ofValue? (value : Value) : Option Settings := do
  let mode ← value.decodeField 3 0 "mode" .tracing CountingMode.ofValue?
  let branchCoverage ← value.decodeField 3 1 "branch_coverage" true Value.bool?
  let filters ← value.decodeField 3 2 "filters" {} FilterSettings.ofValue?
  some { mode, branchCoverage, filters }

end JvmCoverage
