import JvmCoverage.Class.Merge
/-!
# Reports

A `Report` is the coverage of one run: the stores of its classes by class name. `Report.merge` adds
another report class by class in the order of the names and stops at the first class that cannot be
merged; the classes before it stay merged.
-/

set_option autoImplicit false
set_option relaxedAutoImplicit false

namespace JvmCoverage

open Std (ExtTreeMap)

/-- The coverage of one run, by class name. -/
structure Report where
  classes : ExtTreeMap String ClassStore := ∅

namespace Report

instance : Inhabited Report := ⟨{}⟩

def class? (report : Report) (name : String) : Option ClassStore := report.classes[name]?

/-- The stores by ascending class name. -/
def stores (report : Report) : List ClassStore := report.classes.toList.map Prod.snd

def classCount (report : Report) : Nat := report.classes.size

/-- Makes an empty store for a class that has none. -/
def ensureClass (report : Report) (name : String) : Report :=
  { classes := report.classes.alter name fun found ↦ some (found.getD { name }) }

/-- Files a store under the name of its class, in place of the one that is there. -/
def insert (report : Report) (store : ClassStore) : Report :=
  { classes := report.classes.insert store.name store }

/-- Applies `f` to the store of a class, if there is one. -/
def modifyClass (report : Report) (name : String) (f : ClassStore → ClassStore) : Report :=
  { classes := report.classes.modify name f }

/-- Merges one store; a class that is new is taken over as it is. -/
def mergeClass (report : Report) (theirs : ClassStore) : Report × Except Failure Unit :=
  match report.class? theirs.name with
  | none => (report.insert theirs, .ok ())
  | some ours =>
    let (merged, outcome) := ours.mergeInPlace theirs
    ({ classes := report.classes.insert theirs.name merged }, outcome)

/-- Merges stores in order until one cannot be merged. -/
def mergeStores (report : Report) : List ClassStore → Report × Except Failure Unit
  | [] => (report, .ok ())
  | store :: rest =>
    match report.mergeClass store with
    | (report, .ok ()) => report.mergeStores rest
    | (report, .error error) => (report, .error error)

/-- Merges every class of `other`, and says what came of it. -/
def merge (report other : Report) : Report × Except Failure Unit :=
  report.mergeStores other.stores

end Report

end JvmCoverage
