import JvmCoverage.Proofs.Class.WellFormed
import JvmCoverage.Proofs.Field.Outline
import JvmCoverage.Proofs.Report.Operation
import Mathlib.Algebra.Ring.Nat
/-!
# Loading is bounded by the input

A report announces lengths up to `2 ^ 32 - 1` and ranges of keys that are as wide, in loops that
stand five deep. None of it is believed: every round of every loop takes a byte that no loop within
it takes, or it is the end of the load. `Report.load_bounded` says so of the rounds that
`Report.outline` lists, and it follows that no more rounds are completed than there are bytes. What
was loaded holds one thing for each round that was completed, so it is no larger than what was
taken.

Each decoder has its outline and the account of it. The loops over lines and classes hold what they
file, and filing adds one to what a store or a report holds only because nothing is overwritten.
-/

set_option autoImplicit false
set_option relaxedAutoImplicit false

namespace JvmCoverage

open Decoder

/-! ### What a report holds -/

/-- The items of a row and what is in them. -/
def rowSize {α : Type} (size : α → Nat) (row : List α) : Nat :=
  (row.map fun item ↦ 1 + size item).sum

section RowSize

variable {α : Type} (size : α → Nat)

theorem rowSize_of_perm_cons {row rest : List α} {item : α} (hperm : row.Perm (item :: rest)) :
    rowSize size row = rowSize size rest + 1 + size item := by
  rw [rowSize, (hperm.map _).sum_nat, List.map_cons, List.sum_cons, rowSize]
  omega

theorem rowSize_concat (row : List α) (item : α) :
    rowSize size (row ++ [item]) = rowSize size row + 1 + size item :=
  rowSize_of_perm_cons size (List.perm_append_singleton item row)

theorem rowSize_zero (row : List α) : rowSize (fun _ ↦ 0) row = row.length := by
  simp [rowSize]

end RowSize

/-- The keys that are listed; a range takes none. -/
def CaseKeys.contentSize : CaseKeys → Nat
  | listed keys => keys.length
  | range _ _ => 0

/-- The keys and the arm counters. -/
def SwitchRecord.contentSize (switch : SwitchRecord) : Nat :=
  switch.keys.contentSize + switch.arms.size

/-- The jumps, and the switches with what is in them. -/
def LineRecord.contentSize (record : LineRecord) : Nat :=
  record.jumps.size + rowSize SwitchRecord.contentSize record.switches.toList

/-- The records with what is in them. -/
def ClassStore.contentSize (store : ClassStore) : Nat :=
  rowSize LineRecord.contentSize store.records

/-- The classes with what is in them: line records, jumps, switches, listed keys and arm
counters. -/
def Report.contentSize (report : Report) : Nat := rowSize ClassStore.contentSize report.stores

/-! ### Rows -/

namespace Decoder.Outline

def count : Outline Decoder.count := .bind (.field .int) fun _ ↦ .pure _

def branches {α : Type} {decode : UInt32 → Decoder α} (part : Part)
    (item : ∀ id, Outline (decode id)) (length : Nat) :
    Outline (LineRecord.decodeBranches decode length) :=
  .loop part fun branches ↦ .bind (item (UInt32.ofNat branches.size)) fun _ ↦ .pure _

def collect {α : Type} {decoder : Decoder α} (part : Part) (item : Outline decoder)
    (length : Nat) : Outline (Decoder.collect decoder length) :=
  .loop part fun _ ↦ .bind item fun _ ↦ .pure _

namespace Accounts

theorem count (before : Nat) : Outline.count.Accounts 1 (fun _ ↦ before) before :=
  (field .int before).bind fun _ ↦ pure rfl

theorem branches {α : Type} {decode : UInt32 → Decoder α} {part : Part}
    {item : ∀ id, Outline (decode id)} {spent : Nat} {size : α → Nat} (hpart : part.isHeld = true)
    (hspent : 0 < spent)
    (hitem : ∀ id before, (item id).Accounts spent (fun branch ↦ before + size branch) before)
    (length before : Nat) :
    (Outline.branches part item length).Accounts 0
      (fun branches ↦ before + rowSize size branches.toList) before := by
  -- what was held before the row goes with the row, so that the size of a state is all that is held
  have hbody (row : Array α) :
      (Outline.bind (item (UInt32.ofNat row.size)) fun branch ↦
        Outline.pure (row.push branch)).Accounts (0 + spent)
          (fun branches ↦ before + rowSize size branches.toList)
          (before + rowSize size row.toList + part.isHeld.toNat) := by
    refine (hitem _ _).bind fun branch ↦ pure ?_
    rw [Array.toList_push, rowSize_concat, hpart, Bool.toNat_true]
    omega
  exact loop (fun _ ↦ True) (by omega) (fun _ _ ↦ ensures_true _) (fun row _ ↦ hbody row) trivial

theorem collect {α : Type} {decoder : Decoder α} {part : Part} {item : Outline decoder}
    {spent : Nat} (hpart : part.isHeld = true) (hspent : 0 < spent)
    (hitem : ∀ before, item.Accounts spent (fun _ ↦ before) before) (length before : Nat) :
    (Outline.collect part item length).Accounts 0 (fun items ↦ before + items.size) before := by
  have hitems (_ : UInt32) (before : Nat) : item.Accounts spent (fun _ ↦ before + 0) before :=
    hitem before
  have hrow := branches hpart hspent hitems length before
  simp only [rowSize_zero, Array.length_toList] at hrow
  exact hrow

end Accounts

end Decoder.Outline

/-! ### Lines -/

namespace CaseKeys

def outline : Outline CaseKeys.decode :=
  .bind (.field .byte) fun _ ↦
    .branch
      (.bind .count fun length ↦ .bind (.collect .key (.field .signed) length) fun _ ↦ .pure _)
      (.branch (.bind (.field .signed) fun _ ↦ .bind (.field .signed) fun _ ↦ .pure _) (.fail _))

theorem accounts_outline (before : Nat) :
    outline.Accounts 2 (fun keys ↦ before + keys.contentSize) before := by
  refine (Outline.Accounts.field .byte before).bind fun tag ↦ .branch (fun _ ↦ ?_) fun _ ↦
    .branch (fun _ ↦ ?_) fun _ ↦ .fail _ _ _ _
  · refine (Outline.Accounts.count before).bind fun length ↦
      (Outline.Accounts.collect rfl Nat.one_pos (fun before ↦ .field .signed before) length
        before).bind fun keys ↦ .pure ?_
    rw [contentSize, Array.length_toList]
  · have htwo := (Outline.Accounts.field .signed before).bind fun min ↦
      (Outline.Accounts.field .signed before).bind fun max ↦
        (Outline.Accounts.pure rfl : (Outline.pure (range min max)).Accounts 0
          (fun keys ↦ before + keys.contentSize) before)
    exact htwo.weaken (by decide)

end CaseKeys

namespace JumpRecord

def outline (id : UInt32) : Outline (JumpRecord.decode id) :=
  .bind (.field .int) fun _ ↦ .bind (.field .int) fun _ ↦ .pure _

theorem accounts_outline (id : UInt32) (before : Nat) :
    (outline id).Accounts 2 (fun _ ↦ before) before :=
  (Outline.Accounts.field .int before).bind fun _ ↦
    (Outline.Accounts.field .int before).bind fun _ ↦ .pure rfl

end JumpRecord

namespace SwitchRecord

def outline (id : UInt32) : Outline (SwitchRecord.decode id) :=
  .bind CaseKeys.outline fun keys ↦ .bind (.field .int) fun _ ↦
    .branch (.fail _) (.bind (.collect .arm (.field .int) keys.arity) fun _ ↦ .pure _)

theorem accounts_outline (id : UInt32) (before : Nat) :
    (outline id).Accounts 3 (fun switch ↦ before + switch.contentSize) before := by
  refine (CaseKeys.accounts_outline before).bind fun keys ↦
    (Outline.Accounts.field .int _).bind fun unmatched ↦ .branch (fun _ ↦ .fail _ _ _ _) fun _ ↦ ?_
  refine (Outline.Accounts.collect rfl Nat.one_pos (fun before ↦ .field .int before) keys.arity
    _).bind fun arms ↦ .pure ?_
  simp [contentSize, CounterBank.size, Nat.add_assoc]

end SwitchRecord

namespace LineRecord

def outline (signature : String) : Outline (LineRecord.decode signature) :=
  .bind (.field .int) fun _ ↦ .branch (.fail _) <|
    .bind (.field .int) fun _ ↦ .bind .count fun jumpCount ↦
      .bind (.branches .jump JumpRecord.outline jumpCount) fun _ ↦ .bind .count fun switchCount ↦
        .bind (.branches .switch SwitchRecord.outline switchCount) fun _ ↦ .pure _

theorem accounts_outline (signature : String) (before : Nat) :
    (outline signature).Accounts 4 (fun record ↦ before + record.contentSize) before := by
  have hjumps (id : UInt32) (before : Nat) :
      (JumpRecord.outline id).Accounts 2 (fun _ ↦ before + 0) before :=
    JumpRecord.accounts_outline id before
  refine (Outline.Accounts.field .int before).bind fun line ↦ .branch (fun _ ↦ .fail _ _ _ _)
    fun _ ↦ ?_
  refine (Outline.Accounts.field .int before).bind fun hits ↦
    (Outline.Accounts.count before).bind fun jumpCount ↦ ?_
  refine (Outline.Accounts.branches rfl Nat.two_pos hjumps jumpCount before).bind fun jumps ↦
    (Outline.Accounts.count _).bind fun switchCount ↦ ?_
  refine (Outline.Accounts.branches rfl (by decide) SwitchRecord.accounts_outline switchCount
    _).bind fun switches ↦ .pure ?_
  simp [contentSize, rowSize_zero, Nat.add_assoc]

end LineRecord

/-! ### Classes -/

namespace ClassStore

variable {store filed : ClassStore} {record : LineRecord}

theorem contentSize_fresh (name : String) : contentSize { name } = 0 := by
  simp [contentSize, records, LineTable.records, LineTable.empty, rowSize,
    Std.ExtTreeMap.toList_eq_nil_iff.mpr rfl]

theorem filed_fileRecord (hstore : store.table.Filed store.maxLine)
    (hfile : store.fileRecord record = .ok filed) : filed.table.Filed filed.maxLine := by
  obtain ⟨-, rfl⟩ := fileRecord_eq_ok_iff.mp hfile
  refine LineTable.filed_alter hstore (le_max_left _ _) fun other hother ↦ ?_
  cases hother
  exact ⟨rfl, le_max_right _ _⟩

/-- A record is filed beside those that were there, in place of none. -/
theorem perm_records_fileRecord (hstore : store.table.Filed store.maxLine)
    (hfile : store.fileRecord record = .ok filed) :
    filed.records.Perm (record :: store.records) := by
  have hfiled := filed_fileRecord hstore hfile
  obtain ⟨habsent, rfl⟩ := fileRecord_eq_ok_iff.mp hfile
  refine (List.perm_ext_iff_of_nodup (LineTable.nodup_records hfiled) (List.nodup_cons.mpr
    ⟨fun hmem ↦ ?_, LineTable.nodup_records hstore⟩)).mpr fun other ↦ ?_
  · cases habsent.symm.trans ((LineTable.mem_records_iff hstore record).mp hmem)
  · rw [List.mem_cons]
    refine (LineTable.mem_records_iff hfiled other).trans ?_
    rw [LineTable.find?_alter hstore]
    split_ifs with hline
    · refine ⟨fun heq ↦ .inl (Option.some.inj heq).symm, ?_⟩
      rintro (rfl | hmem)
      · rfl
      · have hfound := (LineTable.mem_records_iff hstore other).mp hmem
        rw [hline] at hfound
        cases habsent.symm.trans hfound
    · rw [← LineTable.mem_records_iff hstore]
      refine ⟨.inr, ?_⟩
      rintro (rfl | hmem)
      · exact absurd rfl hline
      · exact hmem

theorem contentSize_fileRecord (hstore : store.table.Filed store.maxLine)
    (hfile : store.fileRecord record = .ok filed) :
    filed.contentSize = store.contentSize + 1 + record.contentSize :=
  rowSize_of_perm_cons LineRecord.contentSize (perm_records_fileRecord hstore hfile)

def recordOutline (signature : String) (store : ClassStore) :
    Outline (decodeRecord signature store) :=
  .bind (LineRecord.outline signature) fun record ↦ .check (store.fileRecord record)

theorem accounts_recordOutline (hstore : store.WellFormed) (signature : String) :
    (recordOutline signature store).Accounts 4 contentSize (store.contentSize + 1) :=
  (LineRecord.accounts_outline signature (store.contentSize + 1)).bind fun _ ↦
    .check fun _ hfile ↦ (contentSize_fileRecord hstore.filed hfile).symm

def groupOutline (store : ClassStore) : Outline store.decodeGroup :=
  .bind (.field .text) fun signature ↦ .bind .count fun _ ↦ .loop .record (recordOutline signature)

theorem accounts_groupOutline (hstore : store.WellFormed) :
    store.groupOutline.Accounts 2 contentSize store.contentSize :=
  (Outline.Accounts.field .text store.contentSize).bind fun signature ↦
    (Outline.Accounts.count store.contentSize).bind fun _ ↦
      .loop WellFormed (by decide) (fun _ hfiling ↦ hfiling.decodeRecord signature)
        (fun _ hfiling ↦ accounts_recordOutline hfiling signature) ⟨hstore.filed, hstore.sized⟩

def outline (dictionary : Dictionary) : Outline (decode dictionary) :=
  .bind (.field .int) fun index ↦
    match dictionary.get? index with
    | none => .fail _
    | some _ => .bind .count fun _ ↦ .loop .owner groupOutline

theorem accounts_outline (dictionary : Dictionary) (before : Nat) :
    (outline dictionary).Accounts 2 (fun store ↦ before + store.contentSize) before := by
  refine (Outline.Accounts.field .int before).bind fun index ↦ ?_
  generalize dictionary.get? index = name?
  cases name? with
  | none => exact .fail _ _ _ _
  | some name =>
    refine (Outline.Accounts.count before).bind fun length ↦ ?_
    have hgroups : (Outline.loop .owner groupOutline :
        Outline (iterate decodeGroup length { name })).Accounts 0 contentSize
          (contentSize { name }) :=
      .loop WellFormed Nat.two_pos (fun _ hfiling ↦ hfiling.decodeGroup)
        (fun _ hfiling ↦ accounts_groupOutline hfiling) (wellFormed_fresh name)
    rw [contentSize_fresh] at hgroups
    exact hgroups.frame before

end ClassStore

/-! ### Reports -/

def Dictionary.outline : Outline Dictionary.decode :=
  .bind .count fun _ ↦ .loop .name fun _ ↦ .bind (.field .text) fun _ ↦ .pure _

theorem Dictionary.accounts_outline (before : Nat) :
    Dictionary.outline.Accounts 1 (fun _ ↦ before) before :=
  (Outline.Accounts.count before).bind fun _ ↦
    .loop (fun _ ↦ True) Nat.one_pos (fun _ _ ↦ ensures_true _)
      (fun _ _ ↦ (Outline.Accounts.field .text before).bind fun _ ↦ .pure rfl) trivial

namespace Report

variable {report filed : Report} {store : ClassStore}

/-- A class is filed beside those that were there, in place of none. -/
theorem perm_stores_fileClass (hfile : report.fileClass store = .ok filed) :
    filed.stores.Perm (store :: report.stores) := by
  obtain ⟨habsent, rfl⟩ := fileClass_eq_ok_iff.mp hfile
  have hnodup (classes : Std.ExtTreeMap String ClassStore) : classes.toList.Nodup :=
    Std.ExtTreeMap.distinct_keys_toList.imp fun hne heq ↦
      hne (Std.compare_eq_iff_eq.mpr (congrArg Prod.fst heq))
  have hclasses : (report.classes.insert store.name store).toList.Perm
      ((store.name, store) :: report.classes.toList) := by
    refine (List.perm_ext_iff_of_nodup (hnodup _) (List.nodup_cons.mpr
      ⟨fun hmem ↦ ?_, hnodup _⟩)).mpr fun ⟨name, found⟩ ↦ ?_
    · cases habsent.symm.trans (Std.ExtTreeMap.mem_toList_iff_getElem?_eq_some.mp hmem)
    · simp only [List.mem_cons, Std.ExtTreeMap.mem_toList_iff_getElem?_eq_some,
        Std.ExtTreeMap.getElem?_insert, Std.compare_eq_iff_eq, Prod.mk.injEq]
      split_ifs with hname
      · subst hname
        refine ⟨fun heq ↦ .inl ⟨rfl, (Option.some.inj heq).symm⟩, ?_⟩
        rintro (⟨-, rfl⟩ | hfound)
        · rfl
        · cases habsent.symm.trans hfound
      · exact ⟨.inr, fun hfound ↦ hfound.resolve_left fun heq ↦ hname heq.1.symm⟩
  exact hclasses.map Prod.snd

theorem contentSize_fileClass (hfile : report.fileClass store = .ok filed) :
    filed.contentSize = report.contentSize + 1 + store.contentSize :=
  rowSize_of_perm_cons ClassStore.contentSize (perm_stores_fileClass hfile)

theorem contentSize_empty : contentSize {} = 0 := by
  simp [contentSize, stores, rowSize, Std.ExtTreeMap.toList_eq_nil_iff.mpr rfl]

def classOutline (dictionary : Dictionary) (report : Report) :
    Outline (decodeClass dictionary report) :=
  .bind (ClassStore.outline dictionary) fun store ↦ .check (report.fileClass store)

theorem accounts_classOutline (dictionary : Dictionary) (report : Report) :
    (classOutline dictionary report).Accounts 2 contentSize (report.contentSize + 1) :=
  (ClassStore.accounts_outline dictionary (report.contentSize + 1)).bind fun _ ↦
    .check fun _ hfile ↦ (contentSize_fileClass hfile).symm

/-- How a report is read: the names, the classes, their owners, the lines of an owner, and the
jumps and switches of a line. -/
def outline : Outline decode :=
  .bind (.field .int) fun _ ↦ .branch (.fail _) <|
    .bind (.field .int) fun _ ↦ .branch (.fail _) <|
      .bind Dictionary.outline fun dictionary ↦ .bind .count fun _ ↦
        .loop .store (classOutline dictionary)

theorem accounts_outline : outline.Accounts 4 contentSize 0 := by
  refine (Outline.Accounts.field .int 0).bind fun magicRead ↦ .branch (fun _ ↦ .fail _ _ _ _)
    fun _ ↦ ?_
  refine (Outline.Accounts.field .int 0).bind fun version ↦ .branch (fun _ ↦ .fail _ _ _ _)
    fun _ ↦ ?_
  refine (Dictionary.accounts_outline 0).bind fun dictionary ↦
    (Outline.Accounts.count 0).bind fun length ↦ ?_
  have hclasses : (Outline.loop .store (classOutline dictionary) :
      Outline (iterate (decodeClass dictionary) length {})).Accounts 0 contentSize
        (contentSize {}) :=
    .loop (fun _ ↦ True) Nat.two_pos (fun _ _ ↦ ensures_true _)
      (fun report _ ↦ accounts_classOutline dictionary report) trivial
  rwa [contentSize_empty] at hclasses

/-- Whatever the bytes announce, every round of every loop takes a byte of its own or is the end of
a load that fails, so no more rounds are completed than there are bytes. A report that was loaded
holds one thing for each completed round, names and owners apart, and no more than bytes were
taken. -/
theorem load_bounded (bytes : List UInt8) :
    (∀ round ∈ outline.rounds bytes,
        (∃ part own, round = .completed part own ∧ 0 < own) ∨
          ∃ part error, round = .failed part ∧ load bytes = .error error) ∧
      Round.completedCount (outline.rounds bytes) ≤ Round.ownBytes (outline.rounds bytes) ∧
      Round.ownBytes (outline.rounds bytes) ≤ bytes.length ∧
      ∀ report rest, load bytes = .ok (report, rest) →
        report.contentSize = Round.heldCount (outline.rounds bytes) ∧
          Round.ownBytes (outline.rounds bytes) + rest.length ≤ bytes.length ∧
          report.contentSize + rest.length ≤ bytes.length := by
  have hpays := accounts_outline.pays bytes
  have hcompleted := Round.completedCount_le_ownBytes hpays
  refine ⟨fun round hround ↦ ?_, hcompleted, accounts_outline.bounded bytes,
    fun report rest hload ↦ ?_⟩
  · cases round with
    | completed part own => exact .inl ⟨part, own, rfl, hpays _ hround⟩
    | failed part =>
      obtain ⟨error, herror⟩ := hpays _ hround
      exact .inr ⟨part, error, rfl, herror⟩
  · have hheld : Round.heldCount (outline.rounds bytes) = report.contentSize :=
      accounts_outline.held hload
    have htaken := accounts_outline.taken hload
    have hcount := Round.heldCount_le_completedCount (outline.rounds bytes)
    exact ⟨hheld.symm, by omega, by omega⟩

/-- One class with a line that has a jump and a switch over two listed keys, and two bytes behind
it: of the 33 bytes that are taken, 25 are taken in rounds. -/
theorem load_bounded_of_switch :
    let bytes : List UInt8 := [252, 0x52, 0x56, 0x43, 0x4C, 1, 1, 1, 67, 1, 0, 1,
      4, 109, 40, 41, 86, 1, 7, 2, 1, 1, 0, 1, 0, 2, 2, 4, 5, 0, 251, 0, 1, 9, 9]
    ∃ report, load bytes = .ok (report, [9, 9]) ∧ report.contentSize = 8 ∧
      Round.completedCount (outline.rounds bytes) = 10 ∧
      Round.ownBytes (outline.rounds bytes) = 25 ∧
      ∀ round ∈ outline.rounds bytes, ∃ part own, round = .completed part own ∧ 0 < own := by
  intro bytes
  have hleft : (load bytes).map Prod.snd = .ok [9, 9] := by decide +kernel
  obtain ⟨⟨report, _⟩, hload, rfl⟩ := exists_of_map_eq_ok hleft
  obtain ⟨hrounds, -, -, hloaded⟩ := load_bounded bytes
  have hheld : Round.heldCount (outline.rounds bytes) = 8 := by decide +kernel
  refine ⟨report, hload, (hloaded report [9, 9] hload).1.trans hheld, by decide +kernel,
    by decide +kernel, fun round hround ↦ (hrounds round hround).resolve_right ?_⟩
  rintro ⟨part, error, -, herror⟩
  cases hload.symm.trans herror

/-- A switch announces 64 arms and the input ends after two. -/
example : outline.rounds [252, 0x52, 0x56, 0x43, 0x4C, 1, 1, 1, 67, 1, 0, 1, 4, 109, 40, 41, 86,
      1, 7, 2, 0, 1, 1, 0, 126, 0, 5, 5] =
    [.completed .name 2, .failed .store, .failed .owner, .failed .record, .failed .switch,
      .completed .arm 1, .completed .arm 1, .failed .arm] := by
  decide +kernel

end Report

end JvmCoverage
