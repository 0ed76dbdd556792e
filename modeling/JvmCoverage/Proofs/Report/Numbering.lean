import JvmCoverage.Proofs.Report.Transcript
import Mathlib.Data.List.Dedup
/-!
# The names that indices stand for

The names at the head of a report are read through `Dictionary.intern`, which gives a name that was
there before no further index. The dictionary is therefore the row of the names without their
repetitions (`Dictionary.toList_ofNames`), and behind a repetition its indices are no longer the
positions of the names. `Report.load_names` says under which name each class of a report is filed,
and when that is the name at the position that its index gives. Nothing refuses a head with
repetitions, so a class can be filed under the name of another one
(`Report.load_names_ne_of_repeated_name`).
-/

set_option autoImplicit false
set_option relaxedAutoImplicit false

namespace JvmCoverage

namespace Dictionary

variable {names : List String}

/-- A repeated name changes nothing, and a new one comes last. -/
theorem toList_intern (dictionary : Dictionary) (name : String) :
    (dictionary.intern name).1.names.toList =
      if name ∈ dictionary.names.toList then dictionary.names.toList
      else dictionary.names.toList ++ [name] := by
  split_ifs with hname
  · obtain ⟨_, -, hintern⟩ := intern_eq_of_mem hname
    rw [hintern]
  · have hrow := intern_of_not_mem hname
    rw [row_toList] at hrow
    simp [hrow]

theorem ofNames_concat (passed : List String) (name : String) :
    ofNames (passed ++ [name]) = ((ofNames passed).intern name).1 := by
  rw [ofNames, ofNames, List.foldl_concat]

theorem toList_ofNames (names : List String) :
    (ofNames names).names.toList = names.eraseDups := by
  induction names using List.reverseRecOn with
  | nil => rfl
  | append_singleton passed name ih =>
    rw [ofNames_concat, toList_intern, ih, List.eraseDups_append]
    by_cases hname : name ∈ passed <;> simp [hname, List.removeAll, List.eraseDups_cons]

theorem nodup_eraseDups (names : List String) : names.eraseDups.Nodup := by
  induction names using List.reverseRecOn with
  | nil => exact List.nodup_nil
  | append_singleton passed name ih =>
    rw [← toList_ofNames] at ih ⊢
    rw [ofNames_concat, toList_intern]
    split_ifs with hname
    · exact ih
    · rw [← List.concat_eq_append]
      exact ih.concat hname

theorem perm_eraseDups (names : List String) : names.eraseDups.Perm names.dedup :=
  (List.perm_ext_iff_of_nodup (nodup_eraseDups names) names.nodup_dedup).mpr fun name ↦ by
    rw [List.mem_eraseDups, List.mem_dedup]

theorem length_eraseDups_le (names : List String) : names.eraseDups.length ≤ names.length := by
  rw [(perm_eraseDups names).length_eq]
  exact names.dedup_sublist.length_le

theorem length_eraseDups_lt (hrepeated : ¬ names.Nodup) :
    names.eraseDups.length < names.length := by
  refine Nat.lt_of_le_of_ne (length_eraseDups_le names) fun hlength ↦ hrepeated ?_
  rw [(perm_eraseDups names).length_eq] at hlength
  exact List.dedup_eq_self.mp (names.dedup_sublist.eq_of_length hlength)

/-- Names that come later do not move those that are there. -/
theorem getElem?_eraseDups_take {slot count : Nat}
    (hslot : slot < (names.take count).eraseDups.length) :
    names.eraseDups[slot]? = (names.take count).eraseDups[slot]? := by
  conv_lhs => rw [← names.take_append_drop count, List.eraseDups_append]
  exact List.getElem?_append_left hslot

theorem eraseDups_of_nodup (hnodup : names.Nodup) : names.eraseDups = names := by
  rw [← toList_ofNames, ofNames_of_nodup hnodup, names_row]

/-- An index stands for the name at its position exactly when no name up to there is repeated. -/
theorem getElem?_eq_iff_of_eraseDups {slot : Nat} {name : String}
    (hname : names.eraseDups[slot]? = some name) :
    names[slot]? = some name ↔ (names.take (slot + 1)).Nodup := by
  obtain ⟨hdistinct, hfound⟩ := List.getElem?_eq_some_iff.mp hname
  have hslot : slot < names.length := Nat.lt_of_lt_of_le hdistinct (length_eraseDups_le names)
  have hfront : (names.take (slot + 1)).length = slot + 1 := by
    rw [List.length_take]
    omega
  constructor
  · intro hposition
    by_contra hrepeated
    have hshort := length_eraseDups_lt hrepeated
    -- the name stands among those before `slot` as well
    have hmem : name ∈ (names.take (slot + 1)).eraseDups := by
      rw [List.mem_eraseDups]
      refine List.mem_of_getElem? (i := slot) ?_
      rw [List.getElem?_take, if_pos (Nat.lt_succ_self slot), hposition]
    obtain ⟨first, hfirst, hfirstName⟩ := List.mem_iff_getElem.mp hmem
    have hboth : names.eraseDups[first]? = some name := by
      rw [getElem?_eraseDups_take hfirst, List.getElem?_eq_getElem hfirst, hfirstName]
    have hsame : first = slot :=
      (List.getElem?_inj (List.getElem?_eq_some_iff.mp hboth).1 (nodup_eraseDups names)).mp
        (hboth.trans hname.symm)
    omega
  · intro hnodup
    have hdistinctFront := eraseDups_of_nodup hnodup
    have hlt : slot < (names.take (slot + 1)).eraseDups.length := by
      rw [hdistinctFront, hfront]
      exact Nat.lt_succ_self slot
    rw [getElem?_eraseDups_take hlt, hdistinctFront, List.getElem?_take,
      if_pos (Nat.lt_succ_self slot)] at hname
    exact hname

end Dictionary

namespace Report

variable {report : Report}

/-- The report holds the class of a transcript under the given name, with the lines that the bytes
give it and no others. -/
def HoldsAs (report : Report) (entry : ClassTranscript) (name : String) : Prop :=
  ∃ store, report.class? name = some store ∧ store.name = name ∧ ∀ line record,
    store.line? line = some record ↔
      record ∈ entry.groups.toList.flatMap (·.records.toList) ∧ record.line = line

/-- Every class of the bytes has an index into the names at their head and is filed under the name
that the index gives among the names without repetitions. This is the name at its position exactly
when none of the names up to there is repeated. -/
theorem load_names {bytes rest : List UInt8} (hload : load bytes = .ok (report, rest)) :
    ∃ transcript, ReportTranscript.decode bytes = .ok (transcript, rest) ∧
      report.classCount = transcript.classes.size ∧
      ∀ entry ∈ transcript.classes.toList, entry.index.toNat < transcript.names.size ∧
        ∃ name, transcript.names.toList.eraseDups[entry.index.toNat]? = some name ∧
          report.HoldsAs entry name ∧
          (transcript.names[entry.index.toNat]? = some name ↔
            (transcript.names.toList.take (entry.index.toNat + 1)).Nodup) := by
  obtain ⟨transcript, htranscript, hread⟩ := shadowed_decode hload
  refine ⟨transcript, htranscript, ?_, fun entry hentry ↦ ?_⟩
  · rw [hread.classes.classCount_eq, Array.length_toList]
  · obtain ⟨store, hstore, hentryRead⟩ := hread.classes.of_entry entry hentry
    have hname := hentryRead.get?_eq
    rw [Dictionary.get?, ← Array.getElem?_toList, Dictionary.toList_ofNames] at hname
    refine ⟨?_, store.name, hname,
      ⟨store, hstore, rfl, hentryRead.groups.filing.line?_eq_some_iff⟩, ?_⟩
    · exact Nat.lt_of_lt_of_le (List.getElem?_eq_some_iff.mp hname).1
        (Dictionary.length_eraseDups_le _)
    · rw [← Array.getElem?_toList]
      exact Dictionary.getElem?_eq_iff_of_eraseDups hname

/-- The head names one class twice and another one after it, and the only class has the index of the
first mention. -/
theorem load_names_of_first_mention :
    let bytes : List UInt8 := [252, 0x52, 0x56, 0x43, 0x4C, 1, 3, 1, 65, 1, 65, 1, 66, 1,
      0, 1, 4, 109, 40, 41, 86, 1, 5, 2, 0, 0]
    ∃ report transcript, load bytes = .ok (report, []) ∧
      ReportTranscript.decode bytes = .ok (transcript, []) ∧
      ∀ entry ∈ transcript.classes.toList,
        ∃ name, transcript.names.toList.eraseDups[entry.index.toNat]? = some name ∧
          report.HoldsAs entry name ∧
          (transcript.names[entry.index.toNat]? = some name ↔
            (transcript.names.toList.take (entry.index.toNat + 1)).Nodup) := by
  intro bytes
  obtain ⟨⟨report, rest⟩, hload, rfl⟩ :=
    Decoder.exists_of_map_eq_ok (show (load bytes).map Prod.snd = .ok [] by decide +kernel)
  obtain ⟨transcript, htranscript, -, hentries⟩ := load_names hload
  exact ⟨report, transcript, hload, htranscript, fun entry hentry ↦ (hentries entry hentry).2⟩

/-- With the index of the second mention the class is filed under the name that comes after it. -/
theorem load_names_ne_of_repeated_name :
    let bytes : List UInt8 := [252, 0x52, 0x56, 0x43, 0x4C, 1, 3, 1, 65, 1, 65, 1, 66, 1,
      1, 1, 4, 109, 40, 41, 86, 1, 5, 2, 0, 0]
    ∃ report transcript, load bytes = .ok (report, []) ∧
      ReportTranscript.decode bytes = .ok (transcript, []) ∧
      ∃ entry ∈ transcript.classes.toList,
        transcript.names[entry.index.toNat]? = some "A" ∧ ¬ report.HoldsAs entry "A" ∧
          (report.class? "B").isSome = true := by
  intro bytes
  have hreport : (load bytes).map (fun front ↦ ((front.1.class? "A").isSome,
      (front.1.class? "B").isSome, front.2)) = .ok (false, true, []) := by decide +kernel
  have htranscript : (ReportTranscript.decode bytes).map (fun front ↦ (front.1.names,
      front.1.classes.toList.map ClassTranscript.index, front.2)) =
      .ok (#["A", "A", "B"], [1], []) := by decide +kernel
  obtain ⟨⟨report, rest⟩, hload, hparts⟩ := Decoder.exists_of_map_eq_ok hreport
  obtain ⟨habsent, hpresent, rfl⟩ : (report.class? "A").isSome = false ∧
      (report.class? "B").isSome = true ∧ rest = [] := by simpa using hparts
  obtain ⟨⟨transcript, rest⟩, hdecode, hparts⟩ := Decoder.exists_of_map_eq_ok htranscript
  obtain ⟨hnames, hindices, rfl⟩ : transcript.names = #["A", "A", "B"] ∧
      transcript.classes.toList.map ClassTranscript.index = [1] ∧ rest = [] := by
    simpa using hparts
  obtain ⟨entry, hentry, hindex⟩ : ∃ entry ∈ transcript.classes.toList, entry.index = 1 :=
    List.mem_map.mp (hindices ▸ List.mem_singleton_self 1)
  refine ⟨report, transcript, hload, hdecode, entry, hentry, ?_, ?_, hpresent⟩
  · rw [hnames, hindex]
    rfl
  · rintro ⟨store, hstore, -⟩
    rw [hstore] at habsent
    cases habsent

end Report

end JvmCoverage
