import JvmCoverage.Dictionary
import JvmCoverage.Proofs.Field.RoundTrip
import Mathlib.Data.List.Induction
/-!
# The dictionary is read back

A dictionary is decided by the row of its names (`Dictionary.eq_of_names_eq`). Names are distinct in
a report, so the dictionary made of them is the row of the names (`Dictionary.ofNames_of_nodup`) and
is read back as such (`Dictionary.reads_fields`). Interning a name that is there changes nothing
(`Dictionary.intern_eq_of_mem`), and any name is found under the index that interning it gives
(`Dictionary.get?_intern`).
-/

set_option autoImplicit false
set_option relaxedAutoImplicit false

namespace JvmCoverage

open Decoder
open Std (ExtTreeMap)

namespace Dictionary

/-- The names decide the rest of a dictionary. -/
theorem eq_of_names_eq {first second : Dictionary} (hnames : first.names = second.names) :
    first = second := by
  have hindices : first.indices = second.indices := ExtTreeMap.ext_getElem? fun name ↦ by
    rw [first.getElem?_indices, second.getElem?_indices, hnames]
  cases first
  cases second
  cases hnames
  cases hindices
  rfl

theorem index?_eq (dictionary : Dictionary) (name : String) :
    dictionary.index? name = (dictionary.names.toList.idxOf? name).map UInt32.ofNat := by
  rw [index?, getElem?_indices, ← List.idxOf?_toArray, Array.toArray_toList]

theorem index?_eq_none {dictionary : Dictionary} {name : String}
    (hname : name ∉ dictionary.names.toList) : dictionary.index? name = none := by
  rw [index?_eq, List.idxOf?_eq_none_iff.mpr hname, Option.map_none]

/-- The dictionary that holds the given names. -/
def row (names : List String) : Dictionary := names.foldl push empty

theorem row_concat (names : List String) (name : String) :
    row (names ++ [name]) = (row names).push name := List.foldl_concat ..

@[simp] theorem names_row (names : List String) : (row names).names = names.toArray := by
  induction names using List.reverseRecOn with
  | nil => rfl
  | append_singleton passed name ih =>
    rw [row_concat, names_push, ih]
    exact List.push_toArray passed name

theorem row_toList (dictionary : Dictionary) : row dictionary.names.toList = dictionary :=
  eq_of_names_eq (by rw [names_row, Array.toArray_toList])

theorem intern_of_not_mem {names : List String} {name : String} (hname : name ∉ names) :
    ((row names).intern name).1 = row (names ++ [name]) := by
  have hnew : (row names).index? name = none := index?_eq_none (by rwa [names_row])
  rw [intern_of_new hnew, row_concat]

/-- A name that is there is interned as one of its slots, and nothing changes. -/
theorem intern_eq_of_mem {dictionary : Dictionary} {name : String}
    (hname : name ∈ dictionary.names.toList) :
    ∃ slot, dictionary.names.toList[slot]? = some name ∧
      dictionary.intern name = (dictionary, UInt32.ofNat slot) := by
  cases hslot : dictionary.names.toList.idxOf? name with
  | none => exact absurd hname (List.idxOf?_eq_none_iff.mp hslot)
  | some slot =>
    obtain ⟨hlt, hfound, _⟩ := List.idxOf?_eq_some_iff.mp hslot
    have hindex : dictionary.index? name = some (UInt32.ofNat slot) := by
      rw [index?_eq, hslot, Option.map_some]
    exact ⟨slot, List.getElem?_eq_some_iff.mpr ⟨hlt, hfound⟩, intern_of_index? hindex⟩

/-- The name is found at its index as long as slots are numbered without overflow. -/
theorem get?_intern_of_mem {dictionary : Dictionary} (hsize : dictionary.size < UInt32.size)
    {name : String} (hname : name ∈ dictionary.names.toList) :
    dictionary.get? (dictionary.intern name).2 = some name := by
  obtain ⟨slot, hslot, hintern⟩ := intern_eq_of_mem hname
  have hslotLt : slot < UInt32.size :=
    Nat.lt_trans (List.getElem?_eq_some_iff.mp hslot).1 hsize
  rwa [hintern, get?, UInt32.toNat_ofNat_of_lt' hslotLt, ← Array.getElem?_toList]

/-- A name is found at the index that interning it gives, whether it is new or was there. -/
theorem get?_intern {dictionary : Dictionary} (hsize : dictionary.size < UInt32.size)
    (name : String) : (dictionary.intern name).1.get? (dictionary.intern name).2 = some name := by
  by_cases hname : name ∈ dictionary.names.toList
  · obtain ⟨slot, -, hintern⟩ := intern_eq_of_mem hname
    have hsame : (dictionary.intern name).1 = dictionary := by rw [hintern]
    rw [hsame]
    exact get?_intern_of_mem hsize hname
  · have hslot : (UInt32.ofNat dictionary.size).toNat = dictionary.names.size :=
      UInt32.toNat_ofNat_of_lt' hsize
    simp [intern_of_new (index?_eq_none hname), get?, hslot]

theorem ofNames_of_nodup {names : List String} (hnodup : names.Nodup) :
    ofNames names = row names := by
  suffices hfrom : ∀ rest passed : List String, (passed ++ rest).Nodup →
      rest.foldl (fun dictionary name ↦ (intern dictionary name).1) (row passed) =
        row (passed ++ rest) from hfrom names [] hnodup
  intro rest
  induction rest with
  | nil => exact fun passed _ ↦ by rw [List.append_nil, List.foldl_nil]
  | cons name rest ih =>
    intro passed hpassed
    have hname : name ∉ passed := fun hmem ↦
      (List.nodup_append.mp hpassed).2.2 name hmem name List.mem_cons_self rfl
    have hnext := ih (passed ++ [name]) (by rwa [List.append_assoc])
    rw [List.append_assoc] at hnext
    rw [List.foldl_cons, intern_of_not_mem hname]
    exact hnext

theorem reads_fields {names : List String} (hnodup : names.Nodup)
    (hlength : names.length < UInt32.size) : Reads decode (row names).fields (row names) := by
  have hfields : (row names).fields = .count names.length :: names.map .text := by
    simp [fields, size]
  rw [hfields, List.map_eq_flatMap]
  refine (reads_count hlength).bind_cons ?_
  refine reads_iterate names row fun passed name rest hnames ↦ ?_
  have hname : name ∉ passed := fun hmem ↦ by
    rw [hnames] at hnodup
    exact (List.nodup_append.mp hnodup).2.2 name hmem name List.mem_cons_self rfl
  rw [← intern_of_not_mem hname]
  exact (reads_text name).bind_pure

end Dictionary

end JvmCoverage
