import JvmCoverage.Class.Table
import Mathlib.Data.List.Basic
/-!
# Line tables through look-ups

The two representations of a line table are compared through `LineTable.find?`. Each operation of a
table has one equation that says what a look-up finds afterwards, whichever representation the table
has (`find?_modify`, `find?_mapKeyed`, `find?_alter`, `find?_rebuild`, `find?_ofMap`).

A dense table is rebuilt from the line numbers that its records carry, so for the last four the
records must be filed where they say they are. `LineTable.Filed` is that invariant, together with
what keeps a dense table small. The records of a filed table are in ascending order and are those
that look-ups find, so tables with the same look-ups have the same records (`records_congr`).
-/

set_option autoImplicit false
set_option relaxedAutoImplicit false

namespace JvmCoverage

/-! ### The larger of two line numbers -/

theorem toNat_max (first second : UInt32) :
    (max first second).toNat = max first.toNat second.toNat := by
  show (if first ≤ second then second else first).toNat = _
  by_cases hle : first ≤ second
  · rw [if_pos hle]
    rw [UInt32.le_iff_toNat_le] at hle
    omega
  · rw [if_neg hle]
    rw [UInt32.le_iff_toNat_le] at hle
    omega

theorem le_max_left (first second : UInt32) : first ≤ max first second := by
  rw [UInt32.le_iff_toNat_le, toNat_max]
  omega

theorem le_max_right (first second : UInt32) : second ≤ max first second := by
  rw [UInt32.le_iff_toNat_le, toNat_max]
  omega

theorem max_eq_left {first second : UInt32} (hle : second ≤ first) : max first second = first := by
  rw [UInt32.le_iff_toNat_le] at hle
  rw [← UInt32.toNat_inj, toNat_max]
  omega

namespace LineTable

open Std (ExtTreeMap)

/-- Every record is filed under its own line number, no line is above `maxLine`, and a dense table
has the slots up to `maxLine` and no line past those of a class file. -/
structure Filed (table : LineTable) (maxLine : UInt32) : Prop where
  line_eq : ∀ {line record}, table.find? line = some record → record.line = line
  le_maxLine : ∀ {line record}, table.find? line = some record → line ≤ maxLine
  size_eq : ∀ {slots}, table = .dense slots → slots.size = maxLine.toNat + 1
  maxLine_le : table.isDense = true → maxLine ≤ highestLineNumber

@[simp] theorem find?_sparse (lines : ExtTreeMap UInt32 LineRecord) (line : UInt32) :
    (sparse lines).find? line = lines[line]? := rfl

@[simp] theorem find?_dense (slots : Array (Option LineRecord)) (line : UInt32) :
    (dense slots).find? line = slots[line.toNat]?.join := rfl

@[simp] theorem find?_empty (line : UInt32) : empty.find? line = none := by
  simp [empty]

/-! ### Operations that keep the representation -/

theorem find?_modify (table : LineTable) (line : UInt32) (f : LineRecord → LineRecord)
    (other : UInt32) :
    (table.modify line f).find? other =
      if other = line then (table.find? other).map f else table.find? other := by
  cases table with
  | sparse lines =>
    simp only [modify, find?_sparse, ExtTreeMap.getElem?_modify, Std.compare_eq_iff_eq]
    by_cases heq : other = line
    · rw [if_pos heq, if_pos heq.symm, heq]
    · rw [if_neg heq, if_neg (Ne.symm heq)]
  | dense slots =>
    simp only [modify, find?_dense, Array.getElem?_modify, UInt32.toNat_inj]
    by_cases heq : other = line
    · rw [if_pos heq, if_pos heq.symm]
      cases slots[other.toNat]? <;> rfl
    · rw [if_neg heq, if_neg (Ne.symm heq)]

theorem find?_mapKeyed (table : LineTable) (f : UInt32 → LineRecord → LineRecord)
    (line : UInt32) : (table.mapKeyed f).find? line = (table.find? line).map (f line) := by
  cases table with
  | sparse lines => simp [mapKeyed]
  | dense slots =>
    simp only [mapKeyed, find?_dense, Array.getElem?_mapIdx]
    cases slots[line.toNat]? <;> simp

@[simp] theorem mapKeyed_id (table : LineTable) :
    (table.mapKeyed fun _ record ↦ record) = table := by
  cases table with
  | sparse lines => exact congrArg sparse (ExtTreeMap.ext_getElem? fun line ↦ by simp)
  | dense slots => exact congrArg dense (Array.ext_getElem? fun slot ↦ by simp)

@[simp] theorem mapKeyed_mapKeyed (table : LineTable) (f g : UInt32 → LineRecord → LineRecord) :
    (table.mapKeyed f).mapKeyed g = table.mapKeyed fun line record ↦ g line (f line record) := by
  cases table with
  | sparse lines =>
    refine congrArg sparse (ExtTreeMap.ext_getElem? fun line ↦ ?_)
    cases hline : lines[line]? <;> simp [hline]
  | dense slots =>
    refine congrArg dense (Array.ext_getElem? fun slot ↦ ?_)
    cases hslot : slots[slot]? <;> simp [hslot, Function.comp_def]

/-! ### The records of a filed table -/

/-- A slot of a dense table stands for the line number that its record carries. -/
theorem toNat_line_of_getElem? {slots : Array (Option LineRecord)} {maxLine : UInt32}
    (hfiled : (dense slots).Filed maxLine) {slot : Nat} {record : LineRecord}
    (hrecord : slots[slot]? = some (some record)) : record.line.toNat = slot := by
  have hslot : slot < slots.size := (Array.getElem?_eq_some_iff.mp hrecord).1
  have hsize : slots.size = maxLine.toNat + 1 := hfiled.size_eq rfl
  have hmax : maxLine.toNat ≤ 65535 := hfiled.maxLine_le rfl
  have hline : (UInt32.ofNat slot).toNat = slot := UInt32.toNat_ofNat_of_lt' (by
    show slot < 2 ^ 32
    omega)
  have hfound : (dense slots).find? (UInt32.ofNat slot) = some record := by
    rw [find?_dense, hline, hrecord]
    rfl
  rw [hfiled.line_eq hfound, hline]

theorem mem_records_iff {table : LineTable} {maxLine : UInt32} (hfiled : table.Filed maxLine)
    (record : LineRecord) : record ∈ table.records ↔ table.find? record.line = some record := by
  cases table with
  | sparse lines =>
    simp only [records, List.mem_map, find?_sparse, Prod.exists, exists_eq_right,
      ExtTreeMap.mem_toList_iff_getElem?_eq_some]
    constructor
    · rintro ⟨line, hline⟩
      rwa [hfiled.line_eq hline]
    · intro hline
      exact ⟨record.line, hline⟩
  | dense slots =>
    simp only [records, List.mem_filterMap, id_eq, exists_eq_right, Array.mem_toList_iff,
      find?_dense]
    constructor
    · intro hmem
      obtain ⟨slot, hslot⟩ := Array.mem_iff_getElem?.mp hmem
      rw [toNat_line_of_getElem? hfiled hslot, hslot]
      rfl
    · intro hfound
      exact Array.mem_of_getElem? (Option.join_eq_some_iff.mp hfound)

theorem pairwise_records {table : LineTable} {maxLine : UInt32} (hfiled : table.Filed maxLine) :
    table.records.Pairwise (·.line < ·.line) := by
  cases table with
  | sparse lines =>
    rw [records, List.pairwise_map]
    refine ExtTreeMap.ordered_keys_toList.imp_of_mem fun {first second} hfirst hsecond hlt ↦ ?_
    rw [hfiled.line_eq (ExtTreeMap.mem_toList_iff_getElem?_eq_some.mp hfirst),
      hfiled.line_eq (ExtTreeMap.mem_toList_iff_getElem?_eq_some.mp hsecond)]
    exact Std.compare_eq_lt.mp hlt
  | dense slots =>
    rw [records, List.pairwise_filterMap, List.pairwise_iff_getElem]
    intro first second hfirst hsecond hlt record hrecord other hother
    have hfirstSlot : slots[first]? = some (some record) :=
      Array.getElem?_eq_some_iff.mpr ⟨by simpa using hfirst, by simpa using hrecord⟩
    have hsecondSlot : slots[second]? = some (some other) :=
      Array.getElem?_eq_some_iff.mpr ⟨by simpa using hsecond, by simpa using hother⟩
    rw [UInt32.lt_iff_toNat_lt, toNat_line_of_getElem? hfiled hfirstSlot,
      toNat_line_of_getElem? hfiled hsecondSlot]
    exact hlt

theorem nodup_records {table : LineTable} {maxLine : UInt32} (hfiled : table.Filed maxLine) :
    table.records.Nodup :=
  (pairwise_records hfiled).imp fun hlt heq ↦ absurd (heq ▸ hlt) (UInt32.lt_irrefl _)

/-- A filed table is known by its look-ups. -/
theorem records_congr {first second : LineTable} {firstMax secondMax : UInt32}
    (hfirst : first.Filed firstMax) (hsecond : second.Filed secondMax)
    (hfind : ∀ line, first.find? line = second.find? line) : first.records = second.records := by
  refine List.Perm.eq_of_pairwise ?_ (pairwise_records hfirst)
    (pairwise_records hsecond) ?_
  · intro a b _ _ hlt hgt
    exact absurd hgt (UInt32.lt_asymm hlt)
  · refine (List.perm_ext_iff_of_nodup (nodup_records hfirst)
      (nodup_records hsecond)).mpr fun record ↦ ?_
    rw [mem_records_iff hfirst, mem_records_iff hsecond, hfind]

theorem pairwise_lineNumbers {table : LineTable} {maxLine : UInt32} (hfiled : table.Filed maxLine) :
    (table.records.map LineRecord.line).Pairwise (· < ·) :=
  List.pairwise_map.mpr (pairwise_records hfiled)

theorem mem_lineNumbers_iff {table : LineTable} {maxLine : UInt32} (hfiled : table.Filed maxLine)
    (line : UInt32) :
    line ∈ table.records.map LineRecord.line ↔ (table.find? line).isSome = true := by
  rw [List.mem_map, Option.isSome_iff_exists]
  constructor
  · rintro ⟨record, hrecord, rfl⟩
    exact ⟨record, (mem_records_iff hfiled record).mp hrecord⟩
  · rintro ⟨record, hfound⟩
    have hline := hfiled.line_eq hfound
    exact ⟨record, (mem_records_iff hfiled record).mpr (hline ▸ hfound), hline⟩

/-- The line numbers of a filed table are known by the look-ups that find a record. -/
theorem lineNumbers_congr {first second : LineTable} {firstMax secondMax : UInt32}
    (hfirst : first.Filed firstMax) (hsecond : second.Filed secondMax)
    (hfind : ∀ line, (first.find? line).isSome = (second.find? line).isSome) :
    first.records.map LineRecord.line = second.records.map LineRecord.line := by
  have hnodup {numbers : List UInt32} (hpairwise : numbers.Pairwise (· < ·)) : numbers.Nodup :=
    hpairwise.imp fun hlt heq ↦ absurd (heq ▸ hlt) (UInt32.lt_irrefl _)
  refine List.Perm.eq_of_pairwise ?_ (pairwise_lineNumbers hfirst) (pairwise_lineNumbers hsecond) ?_
  · intro a b _ _ hlt hgt
    exact absurd hgt (UInt32.lt_asymm hlt)
  · refine (List.perm_ext_iff_of_nodup (hnodup (pairwise_lineNumbers hfirst))
      (hnodup (pairwise_lineNumbers hsecond))).mpr fun line ↦ ?_
    rw [mem_lineNumbers_iff hfirst, mem_lineNumbers_iff hsecond, hfind]

theorem filterMap_find?_lineNumbers {table : LineTable} {maxLine : UInt32}
    (hfiled : table.Filed maxLine) :
    (table.records.map LineRecord.line).filterMap table.find? = table.records := by
  rw [List.filterMap_map]
  refine (List.filterMap_congr fun record hrecord ↦ ?_).trans List.filterMap_some
  exact (mem_records_iff hfiled record).mp hrecord

/-- What `f` makes of the records of a filed table is known by what it makes of the look-ups. -/
theorem map_records_congr {α : Type} {first second : LineTable} {firstMax secondMax : UInt32}
    (hfirst : first.Filed firstMax) (hsecond : second.Filed secondMax) (f : LineRecord → α)
    (hfind : ∀ line, (first.find? line).map f = (second.find? line).map f) :
    first.records.map f = second.records.map f := by
  have hlines := lineNumbers_congr hfirst hsecond fun line ↦ by
    rw [← Option.isSome_map, hfind, Option.isSome_map]
  rw [← filterMap_find?_lineNumbers hfirst, ← filterMap_find?_lineNumbers hsecond, hlines,
    List.map_filterMap, List.map_filterMap]
  exact List.filterMap_congr fun line _ ↦ hfind line

/-- Two filed tables of one representation are equal when their look-ups are. -/
theorem Filed.eq_of_find?_eq {first second : LineTable} {maxLine : UInt32}
    (hfirst : first.Filed maxLine) (hsecond : second.Filed maxLine)
    (hdense : first.isDense = second.isDense)
    (hfind : ∀ line, first.find? line = second.find? line) : first = second := by
  rcases first with lines | slots <;> rcases second with others | otherSlots
  · exact congrArg sparse (ExtTreeMap.ext_getElem? hfind)
  · cases hdense
  · cases hdense
  · have hsize : slots.size = maxLine.toNat + 1 := hfirst.size_eq rfl
    have hotherSize : otherSlots.size = maxLine.toNat + 1 := hsecond.size_eq rfl
    have hmax : maxLine.toNat ≤ 65535 := hfirst.maxLine_le rfl
    refine congrArg dense (Array.ext (hsize.trans hotherSize.symm) fun slot hslot hotherSlot ↦ ?_)
    have hline : (UInt32.ofNat slot).toNat = slot := UInt32.toNat_ofNat_of_lt' (by
      show slot < 2 ^ 32
      omega)
    simpa [hline, hslot, hotherSlot] using hfind (UInt32.ofNat slot)

/-! ### Operations that change the representation -/

/-- No record is lost and none is moved when the map is rebuilt. -/
theorem getElem?_toMap {table : LineTable} {maxLine : UInt32} (hfiled : table.Filed maxLine)
    (line : UInt32) : table.toMap[line]? = table.find? line := by
  cases table with
  | sparse lines => rfl
  | dense slots =>
    have hdistinct : ((dense slots).records.map fun record ↦ (record.line, record)).Pairwise
        fun a b ↦ ¬ compare a.1 b.1 = .eq := by
      rw [List.pairwise_map]
      refine (pairwise_records hfiled).imp fun {a b} hlt heq ↦ ?_
      have hline : a.line = b.line := Std.compare_eq_iff_eq.mp heq
      exact absurd (hline ▸ hlt) (UInt32.lt_irrefl _)
    show (ExtTreeMap.ofList ((dense slots).records.map fun record ↦ (record.line, record)))[line]?
      = _
    cases hfound : (dense slots).find? line with
    | some record =>
      have hline := hfiled.line_eq hfound
      refine ExtTreeMap.getElem?_ofList_of_mem (k := record.line) ?_ hdistinct ?_
      · rw [Std.compare_eq_iff_eq, hline]
      · refine List.mem_map.mpr ⟨record, (mem_records_iff hfiled record).mpr ?_, rfl⟩
        rw [hline, hfound]
    | none =>
      refine ExtTreeMap.getElem?_ofList_of_contains_eq_false ?_
      rw [← Bool.not_eq_true, List.contains_iff_mem, List.map_map, List.mem_map]
      rintro ⟨record, hrecord, rfl⟩
      exact Option.some_ne_none _ (((mem_records_iff hfiled record).mp hrecord).symm.trans hfound)

@[simp] theorem find?_rebuild {table : LineTable} {maxLine : UInt32} (hfiled : table.Filed maxLine)
    (line : UInt32) : table.rebuild.find? line = table.find? line :=
  getElem?_toMap hfiled line

theorem find?_alter {table : LineTable} {maxLine : UInt32} (hfiled : table.Filed maxLine)
    (line : UInt32) (f : Option LineRecord → Option LineRecord) (other : UInt32) :
    (table.alter line f).find? other =
      if other = line then f (table.find? line) else table.find? other := by
  simp only [alter, find?_sparse, ExtTreeMap.getElem?_alter, Std.compare_eq_iff_eq,
    eq_comm (a := line), getElem?_toMap hfiled]

/-- A table made dense finds what the map held, as far as its slots reach. -/
theorem find?_ofMap (lines : ExtTreeMap UInt32 LineRecord) (maxLine line : UInt32) :
    (ofMap lines maxLine).find? line = if line ≤ maxLine then lines[line]? else none := by
  simp only [ofMap, find?_dense, Array.getElem?_ofFn, UInt32.le_iff_toNat_le, Nat.lt_succ_iff]
  split <;> simp

/-! ### Filed tables stay filed -/

theorem filed_empty (maxLine : UInt32) : empty.Filed maxLine where
  line_eq hfound := by simp at hfound
  le_maxLine hfound := by simp at hfound
  size_eq htable := by cases htable
  maxLine_le hdense := by cases hdense

/-- A change that keeps the line numbers keeps every record where it is. -/
theorem filed_of_map {table result : LineTable} {maxLine : UInt32} (hfiled : table.Filed maxLine)
    {f : UInt32 → LineRecord → LineRecord}
    (hline : ∀ line record, table.find? line = some record → (f line record).line = record.line)
    (hfind : ∀ line, result.find? line = (table.find? line).map (f line))
    (hsize : ∀ slots, result = .dense slots → slots.size = maxLine.toNat + 1)
    (hdense : result.isDense = table.isDense) : result.Filed maxLine where
  line_eq {line record} hfound := by
    rw [hfind] at hfound
    obtain ⟨old, hold, rfl⟩ := Option.map_eq_some_iff.mp hfound
    rw [hline line old hold, hfiled.line_eq hold]
  le_maxLine {line record} hfound := by
    rw [hfind] at hfound
    obtain ⟨old, hold, -⟩ := Option.map_eq_some_iff.mp hfound
    exact hfiled.le_maxLine hold
  size_eq {slots} htable := hsize slots htable
  maxLine_le hresult := hfiled.maxLine_le (hdense ▸ hresult)

theorem filed_mapKeyed {table : LineTable} {maxLine : UInt32} (hfiled : table.Filed maxLine)
    {f : UInt32 → LineRecord → LineRecord}
    (hline : ∀ line record, (f line record).line = record.line) :
    (table.mapKeyed f).Filed maxLine := by
  refine filed_of_map hfiled (fun line record _ ↦ hline line record) (find?_mapKeyed table f) ?_
    (by cases table <;> rfl)
  intro slots hslots
  cases table with
  | sparse lines => cases hslots
  | dense old =>
    cases hslots
    rw [Array.size_mapIdx]
    exact hfiled.size_eq rfl

theorem filed_modify {table : LineTable} {maxLine : UInt32} (hfiled : table.Filed maxLine)
    {line : UInt32} {f : LineRecord → LineRecord}
    (hline : ∀ record, table.find? line = some record → (f record).line = record.line) :
    (table.modify line f).Filed maxLine := by
  refine filed_of_map hfiled (f := fun other record ↦ if other = line then f record else record)
    ?_ ?_ ?_ (by cases table <;> rfl)
  · intro other record hfound
    by_cases heq : other = line
    · rw [if_pos heq]
      exact hline record (heq ▸ hfound)
    · rw [if_neg heq]
  · intro other
    rw [find?_modify]
    split <;> simp
  · intro slots hslots
    cases table with
    | sparse lines => cases hslots
    | dense old =>
      cases hslots
      rw [Array.size_modify]
      exact hfiled.size_eq rfl

theorem filed_alter {table : LineTable} {maxLine newMax : UInt32} (hfiled : table.Filed maxLine)
    (hmax : maxLine ≤ newMax) {line : UInt32} {f : Option LineRecord → Option LineRecord}
    (hrecord : ∀ record, f (table.find? line) = some record → record.line = line ∧ line ≤ newMax) :
    (table.alter line f).Filed newMax where
  line_eq {other record} hfound := by
    rw [find?_alter hfiled] at hfound
    by_cases heq : other = line
    · rw [if_pos heq] at hfound
      exact heq ▸ (hrecord record hfound).1
    · rw [if_neg heq] at hfound
      exact hfiled.line_eq hfound
  le_maxLine {other record} hfound := by
    rw [find?_alter hfiled] at hfound
    by_cases heq : other = line
    · rw [if_pos heq] at hfound
      exact heq ▸ (hrecord record hfound).2
    · rw [if_neg heq] at hfound
      exact UInt32.le_trans (hfiled.le_maxLine hfound) hmax
  size_eq htable := by cases htable
  maxLine_le hdense := by cases hdense

theorem filed_rebuild {table : LineTable} {maxLine : UInt32} (hfiled : table.Filed maxLine) :
    table.rebuild.Filed maxLine where
  line_eq hfound := hfiled.line_eq (find?_rebuild hfiled _ ▸ hfound)
  le_maxLine hfound := hfiled.le_maxLine (find?_rebuild hfiled _ ▸ hfound)
  size_eq htable := by cases htable
  maxLine_le hdense := by cases hdense

/-- No record is above the highest line, so none is left out of the slots. -/
theorem find?_ofMap_of_filed {lines : ExtTreeMap UInt32 LineRecord} {maxLine : UInt32}
    (hfiled : (sparse lines).Filed maxLine) (line : UInt32) :
    (ofMap lines maxLine).find? line = (sparse lines).find? line := by
  rw [find?_ofMap]
  by_cases hle : line ≤ maxLine
  · rw [if_pos hle]
    rfl
  · rw [if_neg hle]
    cases hfound : (sparse lines).find? line with
    | none => rfl
    | some record => exact absurd (hfiled.le_maxLine hfound) hle

theorem filed_ofMap {lines : ExtTreeMap UInt32 LineRecord} {maxLine : UInt32}
    (hfiled : (sparse lines).Filed maxLine) (hmax : maxLine ≤ highestLineNumber) :
    (ofMap lines maxLine).Filed maxLine where
  line_eq hfound := hfiled.line_eq (find?_ofMap_of_filed hfiled _ ▸ hfound)
  le_maxLine hfound := hfiled.le_maxLine (find?_ofMap_of_filed hfiled _ ▸ hfound)
  size_eq htable := by
    cases htable
    exact Array.size_ofFn
  maxLine_le _ := hmax

end LineTable

end JvmCoverage
