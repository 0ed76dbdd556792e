/-!
# Hit counters

A `Counter` counts executions in 32 bits and wraps when it overflows. A `CounterBank` is a row of
counters whose length is fixed when it is made: switch arms and the line counters of sampling mode
are banks. A hit on a slot outside the bank is ignored, because it comes from inside the
instrumented program and must never fail there.
-/

set_option autoImplicit false
set_option relaxedAutoImplicit false

namespace JvmCoverage

/-- Counts that do not overflow add up as numbers. -/
theorem toNat_add_of_lt {first second : UInt32}
    (hfits : first.toNat + second.toNat < UInt32.size) :
    (first + second).toNat = first.toNat + second.toNat := by
  rw [UInt32.toNat_add]
  exact Nat.mod_eq_of_lt hfits

/-- A hit count, modulo `2 ^ 32`. -/
structure Counter where
  value : UInt32 := 0
  deriving DecidableEq, Repr, Inhabited

namespace Counter

def hit (counter : Counter) : Counter := ⟨counter.value + 1⟩

def add (counter : Counter) (count : UInt32) : Counter := ⟨counter.value + count⟩

def isHit (counter : Counter) : Bool := decide (0 < counter.value)

/-- The decimal value. -/
def text (counter : Counter) : String := Nat.repr counter.value.toNat

end Counter

/-- A row of counters of fixed length. -/
structure CounterBank where
  slots : Array Counter := #[]
  deriving DecidableEq, Repr, Inhabited

namespace CounterBank

/-- A bank of `size` counters that were never hit. -/
def zeros (size : Nat) : CounterBank := ⟨Array.replicate size {}⟩

def ofValues (values : List UInt32) : CounterBank := ⟨(values.map Counter.mk).toArray⟩

def size (bank : CounterBank) : Nat := bank.slots.size

def isEmpty (bank : CounterBank) : Bool := bank.slots.isEmpty

def values (bank : CounterBank) : List UInt32 := bank.slots.toList.map Counter.value

/-- The count at `index`, zero outside the bank. -/
def get (bank : CounterBank) (index : Nat) : UInt32 := (bank.slots[index]?.getD {}).value

def hit (bank : CounterBank) (index : Nat) : CounterBank :=
  { bank with slots := bank.slots.modify index Counter.hit }

def add (bank : CounterBank) (index : Nat) (count : UInt32) : CounterBank :=
  { bank with slots := bank.slots.modify index (·.add count) }

/-- Adds to each slot the count that `other` holds there; the length stays that of the receiver. -/
def addAll (bank other : CounterBank) : CounterBank :=
  ⟨bank.slots.mapIdx fun index counter ↦ counter.add (other.get index)⟩

def allHit (bank : CounterBank) : Bool := bank.slots.all Counter.isHit

def anyHit (bank : CounterBank) : Bool := bank.slots.any Counter.isHit

/-- How many slots were hit. -/
def hitCount (bank : CounterBank) : Nat := bank.slots.countP Counter.isHit

/-- The counts in brackets, separated by a comma and a blank. -/
def text (bank : CounterBank) : String :=
  "[" ++ ", ".intercalate (bank.slots.toList.map Counter.text) ++ "]"

end CounterBank

end JvmCoverage
