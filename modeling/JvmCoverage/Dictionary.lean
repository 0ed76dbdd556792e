import JvmCoverage.Field.Decoder
import Std.Data.ExtTreeMap
/-!
# Name dictionary

A report holds each class name once, in a dictionary at its head, and refers to it by index. A
`Dictionary` is the row of its names with a map that finds the index of a name without a search of
the row. Names are added by `Dictionary.push` alone, which keeps the two in step.
`Dictionary.intern` gives a name its index, the same one each time.
-/

set_option autoImplicit false
set_option relaxedAutoImplicit false

namespace JvmCoverage

open Std (ExtTreeMap)

/-- Names in the order in which they were first seen, and the index of each. -/
structure Dictionary where
  names : Array String := #[]
  indices : ExtTreeMap String UInt32 := ∅
  /-- The index of a name is the place where it comes first, modulo `2 ^ 32`. -/
  getElem?_indices : ∀ name, indices[name]? = (names.idxOf? name).map UInt32.ofNat := by simp
  deriving DecidableEq

namespace Dictionary

/-- The dictionary without names. -/
def empty : Dictionary := {}

@[simp] theorem names_empty : empty.names = #[] := rfl

instance : Inhabited Dictionary := ⟨empty⟩

def size (dictionary : Dictionary) : Nat := dictionary.names.size

def isEmpty (dictionary : Dictionary) : Bool := dictionary.names.isEmpty

/-- The index of a name that was interned before. -/
def index? (dictionary : Dictionary) (name : String) : Option UInt32 := dictionary.indices[name]?

def get? (dictionary : Dictionary) (index : UInt32) : Option String :=
  dictionary.names[index.toNat]?

theorem idxOf?_push (names : Array String) (name other : String) :
    (names.push name).idxOf? other =
      (names.idxOf? other).or (if name = other then some names.size else none) := by
  obtain ⟨names⟩ := names
  simp only [List.push_toArray, List.idxOf?_toArray, List.size_toArray]
  rw [List.idxOf?, List.findIdx?_append]
  by_cases hname : name = other <;> simp [hname, List.findIdx?_cons]

/-- Appends a name, which keeps the index that it may already have. -/
def push (dictionary : Dictionary) (name : String) : Dictionary where
  names := dictionary.names.push name
  indices := dictionary.indices.insertIfNew name (UInt32.ofNat dictionary.size)
  getElem?_indices other := by
    rw [ExtTreeMap.getElem?_insertIfNew, idxOf?_push, Option.map_or,
      ← dictionary.getElem?_indices]
    simp only [Std.compare_eq_iff_eq, ExtTreeMap.mem_iff_isSome_getElem?]
    by_cases hname : name = other
    · subst hname
      cases dictionary.indices[name]? <;> simp [size]
    · simp [hname]

@[simp] theorem names_push (dictionary : Dictionary) (name : String) :
    (dictionary.push name).names = dictionary.names.push name := rfl

theorem index?_push (dictionary : Dictionary) (name other : String) :
    (dictionary.push name).index? other = (dictionary.index? other).or
      (if name = other then some (UInt32.ofNat dictionary.size) else none) := by
  rw [index?, index?, getElem?_indices, getElem?_indices, names_push, idxOf?_push, Option.map_or]
  split <;> rfl

/-- The index of a name; a new name is appended. -/
def intern (dictionary : Dictionary) (name : String) : Dictionary × UInt32 :=
  match dictionary.index? name with
  | some index => (dictionary, index)
  | none => (dictionary.push name, UInt32.ofNat dictionary.size)

theorem intern_of_index? {dictionary : Dictionary} {name : String} {index : UInt32}
    (hindex : dictionary.index? name = some index) :
    dictionary.intern name = (dictionary, index) := by
  rw [intern, hindex]

theorem intern_of_new {dictionary : Dictionary} {name : String}
    (hnew : dictionary.index? name = none) :
    dictionary.intern name = (dictionary.push name, UInt32.ofNat dictionary.size) := by
  rw [intern, hnew]

/-- The dictionary of the given names, without repetitions. -/
def ofNames (names : List String) : Dictionary :=
  names.foldl (fun dictionary name ↦ (dictionary.intern name).1) empty

/-- The number of names and the names. -/
def fields (dictionary : Dictionary) : List Field :=
  .count dictionary.size :: dictionary.names.toList.map .text

/-- Reads a dictionary. A repeated name keeps its first index and takes no further one. -/
def decode : Decoder Dictionary := do
  Decoder.iterate (fun dictionary ↦ do pure (dictionary.intern (← Decoder.text)).1)
    (← Decoder.count) empty

end Dictionary

end JvmCoverage
