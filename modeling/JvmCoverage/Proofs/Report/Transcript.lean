import JvmCoverage.Proofs.Class.Transcript
import JvmCoverage.Proofs.Report.Dictionary
import JvmCoverage.Proofs.Report.Operation
/-!
# What the bytes of a report announce

A `ReportTranscript` is what the bytes of a report say: the names, the number of classes that is
announced, and the transcript of each class. `Report.shadowed_decode` compares a report with the
transcript of the bytes that it was read from. It has a class for each transcript and no others, so
no class was overwritten.
-/

set_option autoImplicit false
set_option relaxedAutoImplicit false

namespace JvmCoverage

open Decoder

/-- The names and classes of a report as the bytes have them. -/
structure ReportTranscript where
  names : Array String
  /-- The number of classes that the report announces. -/
  announced : Nat
  classes : Array ClassTranscript

namespace ReportTranscript

def decodeNames : Decoder (Array String) := do
  let length ← Decoder.count
  Decoder.collect Decoder.text length

/-- Reads a report after its magic number and its version. -/
def decode : Decoder ReportTranscript := do
  let _ ← Decoder.int
  let _ ← Decoder.int
  let names ← decodeNames
  let announced ← Decoder.count
  let classes ← Decoder.collect ClassTranscript.decode announced
  pure { names, announced, classes }

end ReportTranscript

/-! ### Names -/

namespace Dictionary

/-- The dictionary is made of the names, and each of them can be written. -/
structure NamesRead (names : List String) (dictionary : Dictionary) : Prop where
  eq_ofNames : dictionary = ofNames names
  textFits : ∀ name ∈ dictionary.names.toList, Field.TextFits name

theorem mem_intern {dictionary : Dictionary} {name other : String}
    (hother : other ∈ (dictionary.intern name).1.names.toList) :
    other ∈ dictionary.names.toList ∨ other = name := by
  unfold intern at hother
  split at hother
  · exact .inl hother
  · rw [names_push, Array.toList_push, List.mem_append, List.mem_singleton] at hother
    exact hother

theorem NamesRead.intern {names : List String} {dictionary : Dictionary}
    (hnames : NamesRead names dictionary) {name : String} (hname : Field.TextFits name) :
    NamesRead (names ++ [name]) (dictionary.intern name).1 := by
  refine ⟨?_, fun other hother ↦ ?_⟩
  · rw [hnames.eq_ofNames, ofNames, ofNames, List.foldl_concat]
  · rcases mem_intern hother with hother | rfl
    · exact hnames.textFits other hother
    · exact hname

theorem shadowed_decode :
    Shadowed decode ReportTranscript.decodeNames fun dictionary names ↦
      NamesRead names.toList dictionary := by
  refine (ensures_true count).bind_shadowed fun length _ ↦ ?_
  have hstep (passed : List String) (dictionary : Dictionary)
      (hpassed : NamesRead passed dictionary) :
      Shadowed (do pure (dictionary.intern (← text)).1) text fun next name ↦
        NamesRead (passed ++ [name]) next := by
    refine ensures_text.shadowed.map ?_
    rintro name _ ⟨rfl, hname⟩
    exact hpassed.intern hname
  have hnames := shadowed_iterate NamesRead hstep length ⟨rfl, by simp [ofNames]⟩
  intro bytes dictionary rest hdictionary
  obtain ⟨names, hread, -, hrelated⟩ := hnames hdictionary
  exact ⟨names, hread, hrelated⟩

end Dictionary

namespace Report

variable {report : Report}

/-- The report has the classes of the transcripts and no others. -/
structure ClassesRead (dictionary : Dictionary) (entries : List ClassTranscript)
    (report : Report) : Prop where
  classCount_eq : report.classCount = entries.length
  of_class : ∀ name store, report.class? name = some store →
    store.name = name ∧ ∃ entry ∈ entries, store.ReadFrom dictionary entry
  of_entry : ∀ entry ∈ entries, ∃ store, report.class? store.name = some store ∧
    store.ReadFrom dictionary entry

theorem classCount_insert_of_absent {store : ClassStore}
    (habsent : report.class? store.name = none) :
    (report.insert store).classCount = report.classCount + 1 := by
  have hcontains : report.classes.contains store.name = false := by
    rw [Std.ExtTreeMap.contains_eq_isSome_getElem?]
    exact congrArg Option.isSome habsent
  rw [classCount, insert, Std.ExtTreeMap.size_insert, hcontains]
  rfl

theorem ClassesRead.insert {dictionary : Dictionary} {entries : List ClassTranscript}
    (hentries : ClassesRead dictionary entries report) {store : ClassStore}
    (habsent : report.class? store.name = none) {entry : ClassTranscript}
    (hread : store.ReadFrom dictionary entry) :
    ClassesRead dictionary (entries ++ [entry]) (report.insert store) where
  classCount_eq := by
    rw [classCount_insert_of_absent habsent, hentries.classCount_eq, List.length_append,
      List.length_singleton]
  of_class name found hfound := by
    rw [class?_insert] at hfound
    split_ifs at hfound with hname
    · cases hfound
      exact ⟨hname, entry, by simp, hread⟩
    · obtain ⟨hfoundName, other, hother, hotherRead⟩ := hentries.of_class name found hfound
      exact ⟨hfoundName, other, List.mem_append_left _ hother, hotherRead⟩
  of_entry other hother := by
    rcases List.mem_append.mp hother with hother | hother
    · obtain ⟨found, hfound, hfoundRead⟩ := hentries.of_entry other hother
      have hne : store.name ≠ found.name := fun hname ↦ by
        rw [hname, hfound] at habsent
        cases habsent
      exact ⟨found, by rw [class?_insert, if_neg hne, hfound], hfoundRead⟩
    · rw [List.mem_singleton.mp hother]
      exact ⟨store, by rw [class?_insert, if_pos rfl], hread⟩

theorem shadowed_decodeClass {dictionary : Dictionary} {entries : List ClassTranscript}
    (hentries : ClassesRead dictionary entries report) :
    Shadowed (decodeClass dictionary report) ClassTranscript.decode fun next entry ↦
      ClassesRead dictionary (entries ++ [entry]) next := by
  refine (ClassStore.shadowed_decode dictionary).bind_lift ?_
  intro store entry filed hread hfile
  obtain ⟨habsent, rfl⟩ := fileClass_eq_ok_iff.mp hfile
  exact hentries.insert habsent hread

/-- The report that was read from the bytes of a transcript. -/
structure ReadFrom (transcript : ReportTranscript) (report : Report) : Prop where
  announced_eq : report.classCount = transcript.announced
  announced_lt : transcript.announced < UInt32.size
  names : ∀ name ∈ (Dictionary.ofNames transcript.names.toList).names.toList, Field.TextFits name
  classes : ClassesRead (.ofNames transcript.names.toList) transcript.classes.toList report

theorem shadowed_decode : Shadowed decode ReportTranscript.decode fun report transcript ↦
    report.ReadFrom transcript := by
  refine (ensures_true int).bind_shadowed fun magicRead _ ↦ ?_
  split
  · exact shadowed_fail _ _ _
  refine (ensures_true int).bind_shadowed fun version _ ↦ ?_
  split
  · exact shadowed_fail _ _ _
  refine Dictionary.shadowed_decode.bind fun dictionary names hnames ↦ ?_
  obtain ⟨rfl, hfits⟩ := hnames
  refine ensures_count.bind_shadowed fun announced hannounced ↦ ?_
  have hstart : ClassesRead (.ofNames names.toList) [] {} := by
    refine ⟨rfl, fun name store hstore ↦ ?_, by simp⟩
    simp [class?] at hstore
  have hclasses := shadowed_iterate (ClassesRead (.ofNames names.toList))
    (fun _ _ hentries ↦ shadowed_decodeClass hentries) announced hstart
  refine hclasses.bind_pure fun report classes hread ↦ ?_
  obtain ⟨hsize, hentries⟩ := hread
  refine ⟨?_, hannounced, hfits, hentries⟩
  rw [hentries.classCount_eq, Array.length_toList, hsize]

end Report

end JvmCoverage
