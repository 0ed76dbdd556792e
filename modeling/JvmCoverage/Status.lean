/-!
# Coverage status

How much of a line or of a method was executed. The three values are ordered from less to more
coverage, and `Status.rank` gives the order. The status of a method is the verdict of a
`StatusTally`, which meets the lines of the method one by one and keeps three flags of them.
-/

set_option autoImplicit false
set_option relaxedAutoImplicit false

namespace JvmCoverage

/-- How much of a line or of a method was executed. -/
inductive Status
  /-- Never executed. -/
  | uncovered
  /-- Executed, but some branch outcome or switch arm was never taken. -/
  | partly
  /-- Executed, with every branch outcome and switch arm taken. -/
  | covered
  deriving DecidableEq, Repr, Inhabited

namespace Status

def rank : Status → Nat
  | uncovered => 0
  | partly => 1
  | covered => 2

instance : LE Status := ⟨fun a b ↦ a.rank ≤ b.rank⟩

instance (a b : Status) : Decidable (a ≤ b) := inferInstanceAs (Decidable (a.rank ≤ b.rank))

instance : Min Status := minOfLe

instance : Max Status := maxOfLe

/-- The statuses from least to most coverage. -/
def sorted (statuses : List Status) : List Status := statuses.mergeSort fun a b ↦ decide (a ≤ b)

/-- The word a report shows for the status. -/
def label : Status → String
  | uncovered => "None"
  | partly => "Partial"
  | covered => "Full"

def ofLabel? : String → Option Status
  | "None" => some uncovered
  | "Partial" => some partly
  | "Full" => some covered
  | _ => none

end Status

/-- What is kept of the lines that were met: whether there was one, whether one of them is not
uncovered, and whether all of them are covered. -/
structure StatusTally where
  seen : Bool := false
  anyCovered : Bool := false
  allFull : Bool := true
  deriving DecidableEq, Repr

namespace StatusTally

/-- Meets a line of the status. -/
def note (tally : StatusTally) : Status → StatusTally
  | .uncovered => { tally with seen := true, allFull := false }
  | .partly => { seen := true, anyCovered := true, allFull := false }
  | .covered => { tally with seen := true, anyCovered := true }

/-- The status of all lines together. -/
def verdict (tally : StatusTally) : Status :=
  if !tally.seen || !tally.anyCovered then .uncovered
  else if tally.allFull then .covered
  else .partly

end StatusTally

end JvmCoverage
