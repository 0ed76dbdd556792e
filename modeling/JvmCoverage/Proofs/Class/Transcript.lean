import JvmCoverage.Proofs.Class.RoundTrip
import JvmCoverage.Proofs.Field.Text
/-!
# What the bytes of a class announce

A `ClassTranscript` is what the bytes of a class say, group by group, with the number of lines that
each group announces. It is read without filing anything, so nothing can be overwritten in it. A
class that is read from the same bytes holds exactly these lines, each under its own number
(`ClassStore.shadowed_decode`), and as many of them as were announced (`GroupsRead.lineCount_eq`).
-/

set_option autoImplicit false
set_option relaxedAutoImplicit false

namespace JvmCoverage

open Decoder

/-- An owner and its lines as the bytes have them. -/
structure GroupTranscript where
  signature : String
  /-- The number of lines that the group announces. -/
  announced : Nat
  records : Array LineRecord

def GroupTranscript.decode : Decoder GroupTranscript := do
  let signature ← Decoder.text
  let announced ← Decoder.count
  let records ← Decoder.collect (LineRecord.decode signature) announced
  pure { signature, announced, records }

/-- The groups of a class as the bytes have them. -/
structure ClassTranscript where
  index : UInt32
  groups : Array GroupTranscript

namespace ClassTranscript

def decode : Decoder ClassTranscript := do
  let index ← Decoder.int
  let length ← Decoder.count
  let groups ← Decoder.collect GroupTranscript.decode length
  pure { index, groups }

/-- The number of lines that the groups of the class announce together. -/
def announcedLines (transcript : ClassTranscript) : Nat :=
  (transcript.groups.toList.map GroupTranscript.announced).sum

end ClassTranscript

namespace ClassStore

variable {store filed : ClassStore} {name : String}

/-- A record that was filed is on a line that was not there. -/
theorem Filing.of_fileRecord {records : List LineRecord} (hfiling : Filing name records store)
    {record : LineRecord} (hfile : store.fileRecord record = .ok filed) :
    (∀ other ∈ records, other.line ≠ record.line) ∧ Filing name (records ++ [record]) filed := by
  have hnew (other : LineRecord) (hother : other ∈ records) : other.line ≠ record.line := by
    intro hline
    have hfound := (hfiling.line?_eq_some_iff record.line other).mpr ⟨hother, hline⟩
    rw [(fileRecord_eq_ok_iff.mp hfile).1] at hfound
    cases hfound
  obtain ⟨next, hnext, hfiled⟩ := hfiling.fileRecord hnew
  rw [hfile] at hnext
  cases hnext
  exact ⟨hnew, hfiled⟩

/-- The lines of a group are filed behind those that were there before. -/
structure LinesRead (name : String) (before : List LineRecord) (signature : String)
    (lines : List LineRecord) (store : ClassStore) : Prop where
  filing : Filing name (before ++ lines) store
  distinct : (before ++ lines).Pairwise (·.line ≠ ·.line)
  line : ∀ record ∈ lines, record.AsRead signature

theorem shadowed_decodeRecord {before lines : List LineRecord} {signature : String}
    (hlines : LinesRead name before signature lines store) :
    Shadowed (decodeRecord signature store) (LineRecord.decode signature) fun next record ↦
      LinesRead name before signature (lines ++ [record]) next := by
  refine (LineRecord.asRead_decode signature).shadowed.bind_lift ?_
  rintro record _ filed ⟨rfl, hrecord⟩ hfile
  obtain ⟨hnew, hfiling⟩ := hlines.filing.of_fileRecord hfile
  refine ⟨by rwa [← List.append_assoc], ?_, fun other hother ↦ ?_⟩
  · rw [← List.append_assoc]
    refine List.pairwise_append.mpr ⟨hlines.distinct, List.pairwise_singleton _ _, ?_⟩
    intro other hother last hlast
    rw [List.mem_singleton.mp hlast]
    exact hnew other hother
  · rcases List.mem_append.mp hother with hother | hother
    · exact hlines.line other hother
    · exact List.mem_singleton.mp hother ▸ hrecord

/-- The store holds the lines of the groups, no two of them on one line. -/
structure GroupsRead (name : String) (groups : List GroupTranscript) (store : ClassStore) :
    Prop where
  filing : Filing name (groups.flatMap (·.records.toList)) store
  distinct : (groups.flatMap (·.records.toList)).Pairwise (·.line ≠ ·.line)
  size_eq : ∀ group ∈ groups, group.records.size = group.announced
  signature : ∀ group ∈ groups, Field.TextFits group.signature
  line : ∀ group ∈ groups, ∀ record ∈ group.records.toList, record.AsRead group.signature

theorem shadowed_decodeGroup {groups : List GroupTranscript}
    (hgroups : GroupsRead name groups store) :
    Shadowed store.decodeGroup GroupTranscript.decode fun next group ↦
      GroupsRead name (groups ++ [group]) next := by
  refine ensures_text.bind_shadowed fun signature hsignature ↦ ?_
  refine (ensures_true count).bind_shadowed fun announced _ ↦ ?_
  let before := groups.flatMap (·.records.toList)
  have hstart : LinesRead name before signature []
      { store with signatures := store.signatures.insert signature } := by
    refine ⟨?_, ?_, by simp⟩
    · rw [List.append_nil]
      exact { hgroups.filing with }
    · rw [List.append_nil]
      exact hgroups.distinct
  have hlines := shadowed_iterate (LinesRead name before signature)
    (fun _ _ hlines ↦ shadowed_decodeRecord hlines) announced hstart
  refine hlines.bind_pure fun next records hnext ↦ ?_
  obtain ⟨hsize, hfiling, hdistinct, hread⟩ := hnext
  have hflat (last : GroupTranscript) : (groups ++ [last]).flatMap (·.records.toList) =
      before ++ last.records.toList := by
    rw [List.flatMap_append, List.flatMap_singleton]
  refine ⟨hflat _ ▸ hfiling, hflat _ ▸ hdistinct, ?_, ?_, ?_⟩
  all_goals
    intro group hgroup
    rcases List.mem_append.mp hgroup with hgroup | hgroup
  · exact hgroups.size_eq group hgroup
  · exact List.mem_singleton.mp hgroup ▸ hsize
  · exact hgroups.signature group hgroup
  · exact List.mem_singleton.mp hgroup ▸ hsignature
  · exact hgroups.line group hgroup
  · exact List.mem_singleton.mp hgroup ▸ hread

/-- The class of a transcript, whose name the dictionary has under its index. -/
structure ReadFrom (dictionary : Dictionary) (transcript : ClassTranscript) (store : ClassStore) :
    Prop where
  get?_eq : dictionary.get? transcript.index = some store.name
  groups : GroupsRead store.name transcript.groups.toList store

theorem shadowed_decode (dictionary : Dictionary) :
    Shadowed (decode dictionary) ClassTranscript.decode fun store transcript ↦
      store.ReadFrom dictionary transcript := by
  refine (ensures_true int).bind_shadowed fun index _ ↦ ?_
  cases hname : dictionary.get? index with
  | none => exact shadowed_fail _ _ _
  | some name =>
    refine (ensures_true count).bind_shadowed fun length _ ↦ ?_
    have hstart : GroupsRead name [] { name } :=
      ⟨Filing.fresh name, .nil, by simp, by simp, by simp⟩
    have hgroups := shadowed_iterate (GroupsRead name)
      (fun _ _ hgroups ↦ shadowed_decodeGroup hgroups) length hstart
    refine hgroups.bind_pure fun store groups hstore ↦ ?_
    obtain ⟨-, hread⟩ := hstore
    have hstoreName := hread.filing.name_eq
    exact ⟨hname.trans (congrArg some hstoreName.symm), hstoreName ▸ hread⟩

/-! ### The lines of a class that was read -/

namespace GroupsRead

variable {groups : List GroupTranscript}

theorem perm_records (hgroups : GroupsRead name groups store) :
    (groups.flatMap (·.records.toList)).Perm store.records := by
  have hfiled := hgroups.filing.filed
  refine (List.perm_ext_iff_of_nodup ?_ ?_).mpr fun record ↦ ?_
  · exact hgroups.distinct.imp fun hne heq ↦ hne (congrArg LineRecord.line heq)
  · exact LineTable.nodup_records hfiled
  · have hfound := hgroups.filing.line?_eq_some_iff record.line record
    exact (hfound.trans (and_iff_left rfl)).symm.trans
      (LineTable.mem_records_iff hfiled record).symm

/-- Nothing was overwritten: the class has as many lines as its groups announce. -/
theorem lineCount_eq (hgroups : GroupsRead name groups store) :
    store.lineCount = (groups.map GroupTranscript.announced).sum := by
  rw [lineCount, ← hgroups.perm_records.length_eq, List.length_flatMap]
  refine congrArg List.sum (List.map_congr_left fun group hgroup ↦ ?_)
  rw [Array.length_toList, hgroups.size_eq group hgroup]

theorem maxLine_eq (hgroups : GroupsRead name groups store) :
    store.maxLine = store.lineNumbers.foldl max 0 :=
  (hgroups.filing.perm hgroups.perm_records).maxLine_eq

theorem asRead_of_line? (hgroups : GroupsRead name groups store) {line : UInt32}
    {record : LineRecord} (hrecord : store.line? line = some record) :
    record.line = line ∧ record.AsRead record.signature ∧ Field.TextFits record.signature := by
  obtain ⟨hmem, hline⟩ := (hgroups.filing.line?_eq_some_iff line record).mp hrecord
  obtain ⟨group, hgroup, hmem⟩ := List.mem_flatMap.mp hmem
  have hread := hgroups.line group hgroup record hmem
  have hsignature := hread.signature_eq
  exact ⟨hline, hsignature ▸ hread, hsignature ▸ hgroups.signature group hgroup⟩

end GroupsRead

end ClassStore

end JvmCoverage
