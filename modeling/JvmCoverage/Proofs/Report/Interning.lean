import JvmCoverage.Proofs.Report.Numbering
import JvmCoverage.Proofs.Report.Saving
/-!
# Names keep their indices

However names are interned, the map and the row of a dictionary stand for the same numbering
(`Dictionary.Numbered`), and a name that has an index keeps it whatever is interned after it
(`Dictionary.KeepsIndices`). The dictionary of a report is made of all its class names before
anything is written, so a class that is saved finds its name there: `Report.classSaves` lists the
saves of its classes that a report save is put together from (`Report.saveClasses_eq_conclude`), and
each of them leaves the dictionary as it is. What is written of a class begins with its index
(`Report.head?_numberedClasses`). The main statement is `Report.names_keep_their_indices`.
-/

set_option autoImplicit false
set_option relaxedAutoImplicit false

namespace JvmCoverage

open Std (ExtTreeMap)

namespace Dictionary

variable {dictionary : Dictionary}

/-! ### The numbering of the names -/

/-- Names and indices stand for each other, and the indices are the numbers below the size. -/
structure Numbered (dictionary : Dictionary) : Prop where
  nodup : dictionary.names.toList.Nodup
  index?_eq_some_iff : ∀ name index,
    dictionary.index? name = some index ↔ dictionary.get? index = some name
  exists_index?_iff : ∀ index : UInt32,
    (∃ name, dictionary.index? name = some index) ↔ index.toNat < dictionary.size

theorem get?_eq_some_iff {index : UInt32} {name : String} :
    dictionary.get? index = some name ↔ dictionary.names.toList[index.toNat]? = some name := by
  rw [get?, ← Array.getElem?_toList]

/-- Distinct names that are few enough for their indices are numbered. -/
theorem numbered_of_nodup (hnodup : dictionary.names.toList.Nodup)
    (hsize : dictionary.size ≤ UInt32.size) : dictionary.Numbered := by
  have hindex (name : String) (index : UInt32) :
      dictionary.index? name = some index ↔ dictionary.get? index = some name := by
    rw [index?_eq, Option.map_eq_some_iff, get?_eq_some_iff]
    constructor
    · rintro ⟨slot, hslot, rfl⟩
      obtain ⟨hlt, hname, -⟩ := List.idxOf?_eq_some_iff.mp hslot
      rw [UInt32.toNat_ofNat_of_lt' (Nat.lt_of_lt_of_le hlt hsize)]
      exact List.getElem?_eq_some_iff.mpr ⟨hlt, hname⟩
    · intro hname
      obtain ⟨hlt, hfound⟩ := List.getElem?_eq_some_iff.mp hname
      refine ⟨index.toNat, List.idxOf?_eq_some_iff.mpr ⟨hlt, hfound, ?_⟩, UInt32.ofNat_toNat⟩
      -- the name comes nowhere before, since it comes only once
      intro earlier hearlier hsame
      have hslot := hnodup.getElem_inj_iff.mp (hsame.trans hfound.symm)
      omega
  refine ⟨hnodup, hindex, fun index ↦ ?_⟩
  simp only [hindex, get?, size]
  constructor
  · rintro ⟨name, hname⟩
    exact (Array.getElem?_eq_some_iff.mp hname).1
  · intro hlt
    exact ⟨_, Array.getElem?_eq_getElem hlt⟩

theorem nodup_ofNames (calls : List String) : (ofNames calls).names.toList.Nodup := by
  rw [toList_ofNames]
  exact nodup_eraseDups calls

/-! ### Names that come later -/

/-- The names of the first dictionary have the same indices in the second one, and interning one of
them there gives that index and changes nothing. -/
def KeepsIndices (before after : Dictionary) : Prop :=
  ∀ name index, before.index? name = some index →
    after.index? name = some index ∧ after.intern name = (after, index)

theorem keepsIndices_refl (dictionary : Dictionary) : dictionary.KeepsIndices dictionary :=
  fun _ _ hindex ↦ ⟨hindex, intern_of_index? hindex⟩

theorem KeepsIndices.trans {middle after : Dictionary} (hfirst : dictionary.KeepsIndices middle)
    (hsecond : middle.KeepsIndices after) : dictionary.KeepsIndices after :=
  fun name index hindex ↦ hsecond name index (hfirst name index hindex).1

/-- One more name leaves the index of every other one, and has the index that interning it gave. -/
theorem index?_intern (dictionary : Dictionary) (name other : String) :
    (dictionary.intern name).1.index? other =
      (dictionary.index? other).or
        (if name = other then some (dictionary.intern name).2 else none) := by
  cases hindex : dictionary.index? name with
  | some index =>
    rw [intern_of_index? hindex]
    by_cases hname : name = other
    · rw [if_pos hname, ← hname, hindex, Option.some_or]
    · rw [if_neg hname, Option.or_none]
  | none => rw [intern_of_new hindex, index?_push]

theorem keepsIndices_intern (dictionary : Dictionary) (name : String) :
    dictionary.KeepsIndices (dictionary.intern name).1 := by
  intro other index hindex
  have hkept : (dictionary.intern name).1.index? other = some index := by
    rw [index?_intern, hindex, Option.some_or]
  exact ⟨hkept, intern_of_index? hkept⟩

theorem keepsIndices_ofNames (calls later : List String) :
    (ofNames calls).KeepsIndices (ofNames (calls ++ later)) := by
  induction later using List.reverseRecOn with
  | nil =>
    rw [List.append_nil]
    exact keepsIndices_refl _
  | append_singleton later name ih =>
    rw [← List.append_assoc, ofNames_concat]
    exact ih.trans (keepsIndices_intern _ name)

/-- The answer to a call is the index of its name from then on. -/
theorem index?_ofNames (calls later : List String) (name : String) :
    (ofNames (calls ++ name :: later)).index? name = some ((ofNames calls).intern name).2 := by
  have hnow : (ofNames (calls ++ [name])).index? name = some ((ofNames calls).intern name).2 := by
    rw [ofNames_concat, index?_intern, if_pos rfl]
    cases hindex : (ofNames calls).index? name with
    | none => rfl
    | some index => rw [intern_of_index? hindex, Option.some_or]
  rw [List.append_cons]
  exact (keepsIndices_ofNames (calls ++ [name]) later name _ hnow).1

/-! ### Saved dictionaries -/

/-- What a sink without limit takes of a dictionary is read back as the same dictionary, whatever
follows it. -/
theorem decode_of_writeAll (hnodup : dictionary.names.toList.Nodup)
    (hsize : dictionary.size < UInt32.size) {sink : Sink} (hsink : sink.capacity = none)
    (hok : (sink.writeAll dictionary.fields).2 = .ok ()) :
    ∃ bytes, (sink.writeAll dictionary.fields).1.written = sink.written ++ bytes.toByteArray ∧
      ∀ rest, decode (bytes ++ rest) = .ok (dictionary, rest) := by
  obtain ⟨bytes, hbytes, hwritten⟩ := sink.written_of_writeAll hsink hok
  have hread := reads_fields hnodup hsize
  rw [row_toList] at hread
  exact ⟨bytes, by rw [hwritten], fun rest ↦ hread rest hbytes⟩

end Dictionary

/-- The fields of a class begin with the index of its name. -/
theorem ClassStore.head?_fields (store : ClassStore) (index : UInt32) :
    (store.fields index).head? = some (.int index) := rfl

namespace Report

variable {report : Report}

/-! ### The saves of the classes of a report -/

/-- The saves of the given classes in order, up to the first that fails. Each of them starts with
the dictionary and the sink that the one before it left. -/
def classSaves (dictionary : Dictionary) (sink : Sink) : List ClassStore → List ClassSave
  | [] => []
  | store :: rest =>
    let save := store.save dictionary sink
    save :: match save.outcome with
      | .ok () => classSaves save.dictionary save.sink rest
      | .error _ => []

/-- What the given class saves leave of a report whose header is in the sink: the stores as they
left them, and the sink and the outcome of the last one. -/
def conclude (report : Report) (sink : Sink) (saves : List ClassSave) : ReportSave where
  report := saves.foldl (fun report save ↦ report.insert save.store) report
  sink := saves.getLast?.elim sink ClassSave.sink
  outcome := saves.getLast?.elim sink.flush fun last ↦ last.outcome.bind fun _ ↦ last.sink.flush

theorem conclude_cons_of_ok {sink : Sink} {save : ClassSave} {saves : List ClassSave}
    (hok : save.outcome = .ok ()) :
    report.conclude sink (save :: saves) =
      (report.insert save.store).conclude save.sink saves := by
  rw [conclude, conclude, List.foldl_cons, List.getLast?_cons]
  cases saves.getLast? with
  | none => simp [hok, Except.bind]
  | some last => rfl

/-- A class that was saved is filed where it was. -/
theorem insert_store_save (report : Report) (store : ClassStore) (dictionary : Dictionary)
    (sink : Sink) :
    ({ classes := report.classes.insert store.name (store.save dictionary sink).store } : Report) =
      report.insert (store.save dictionary sink).store := by
  have hname : (store.save dictionary sink).store.name = store.name := store.name_foldMask
  rw [Report.insert, hname]

theorem saveClasses_eq_conclude (dictionary : Dictionary) (sink : Sink)
    {classes : List (String × ClassStore)} (hnames : ∀ pair ∈ classes, pair.2.name = pair.1) :
    report.saveClasses dictionary sink classes =
      report.conclude sink (classSaves dictionary sink (classes.map Prod.snd)) := by
  induction classes generalizing report dictionary sink with
  | nil => rfl
  | cons pair rest ih =>
    obtain ⟨name, store⟩ := pair
    obtain rfl : store.name = name := hnames (name, store) List.mem_cons_self
    rw [saveClasses, List.map_cons, classSaves, insert_store_save]
    cases houtcome : (store.save dictionary sink).outcome with
    | ok =>
      rw [conclude_cons_of_ok houtcome]
      exact ih _ _ fun other hother ↦ hnames other (List.mem_cons_of_mem _ hother)
    | error error => simp [conclude, houtcome, Except.bind]

/-- A class whose name is in the dictionary leaves the dictionary as it is. -/
theorem dictionary_eq_of_mem_classSaves {dictionary : Dictionary} {stores : List ClassStore}
    (hnames : ∀ store ∈ stores, store.name ∈ dictionary.names.toList) (sink : Sink)
    {save : ClassSave} (hsave : save ∈ classSaves dictionary sink stores) :
    save.dictionary = dictionary := by
  induction stores generalizing sink with
  | nil => cases hsave
  | cons store rest ih =>
    have hfirst : (store.save dictionary sink).dictionary = dictionary := by
      rw [save_class (hnames store List.mem_cons_self)]
    rw [classSaves] at hsave
    rcases List.mem_cons.mp hsave with rfl | hlater
    · exact hfirst
    · split at hlater
      · rw [hfirst] at hlater
        exact ih (fun other hother ↦ hnames other (List.mem_cons_of_mem _ hother)) _ hlater
      · cases hlater

/-! ### The numbers of the classes -/

theorem names_dictionary (hfiled : report.Filed) :
    report.dictionary.names.toList = report.stores.map ClassStore.name := by
  rw [dictionary_eq, Dictionary.names_row, ← ExtTreeMap.map_fst_toList_eq_keys, stores,
    List.map_map]
  refine List.map_congr_left fun pair hpair ↦ ?_
  exact ((hfiled _ _ (ExtTreeMap.mem_toList_iff_getElem?_eq_some.mp hpair)).1).symm

/-- The index of a class is its place in the order in which the classes are written. -/
theorem intern_store (hfiled : report.Filed) {store : ClassStore} {slot : Nat}
    (hstore : report.stores[slot]? = some store) :
    report.dictionary.intern store.name = (report.dictionary, UInt32.ofNat slot) := by
  have hname : report.dictionary.names.toList[slot]? = some store.name := by
    rw [names_dictionary hfiled, List.getElem?_map, hstore, Option.map_some]
  have hnodup : report.dictionary.names.toList.Nodup := Dictionary.nodup_ofNames _
  obtain ⟨other, hother, hintern⟩ := Dictionary.intern_eq_of_mem (List.mem_of_getElem? hname)
  obtain rfl : other = slot :=
    (List.getElem?_inj (List.getElem?_eq_some_iff.mp hother).1 hnodup).mp (hother.trans hname.symm)
  exact hintern

/-- The fields of each class, if the classes have the indices 0, 1, 2 and so on in the order in
which they are written. -/
def numberedClasses (report : Report) : List (List Field) :=
  report.stores.zipIdx.map fun entry ↦ entry.1.foldMask.fields (UInt32.ofNat entry.2)

/-- The fields of a report whose classes have these indices. -/
def numberedFields (report : Report) : List Field :=
  report.header ++ report.numberedClasses.flatten

/-- The first field of every class is its place among the classes. -/
theorem head?_numberedClasses (report : Report) :
    report.numberedClasses.map List.head? =
      (List.range report.stores.length).map fun slot ↦ some (.int (UInt32.ofNat slot)) := by
  rw [numberedClasses, List.map_map, List.range_eq_range', ← List.zipIdx_map_snd 0 report.stores,
    List.map_map]
  exact List.map_congr_left fun entry _ ↦ entry.1.foldMask.head?_fields _

theorem fields_eq_numberedFields (hfiled : report.Filed) :
    report.fields = report.numberedFields := by
  have hclasses : report.stores.map (classFields report.dictionary) = report.numberedClasses := by
    conv_lhs => rw [← List.zipIdx_map_fst 0 report.stores, List.map_map]
    refine List.map_congr_left fun entry hentry ↦ ?_
    rw [Function.comp_apply, classFields,
      intern_store hfiled (List.mem_zipIdx_iff_getElem?.mp hentry)]
  rw [fields, numberedFields, List.flatMap_def, hclasses]

/-- A save of the report to the sink numbers the classes in the order in which it writes them, and
each class finds its name among those of the header. -/
structure NumbersClasses (report : Report) (sink : Sink) : Prop where
  names : report.dictionary.names.toList = report.stores.map ClassStore.name
  head?_eq : report.numberedClasses.map List.head? =
    (List.range report.stores.length).map fun slot ↦ some (.int (UInt32.ofNat slot))
  sink_eq : (report.save sink).sink = (sink.writeAll report.numberedFields).1
  outcome_eq : (report.save sink).outcome =
    (sink.writeAll report.numberedFields).2.bind fun _ ↦ sink.flush
  save_eq : (sink.writeAll report.header).2 = .ok () →
    report.save sink = report.conclude (sink.writeAll report.header).1
      (classSaves report.dictionary (sink.writeAll report.header).1 report.stores)
  dictionary_eq : ∀ save ∈ classSaves report.dictionary (sink.writeAll report.header).1
    report.stores, save.dictionary = report.dictionary

theorem numbersClasses (hfiled : report.Filed) (sink : Sink) : report.NumbersClasses sink where
  names := names_dictionary hfiled
  head?_eq := report.head?_numberedClasses
  sink_eq := by rw [← fields_eq_numberedFields hfiled, sink_save hfiled]
  outcome_eq := by rw [← fields_eq_numberedFields hfiled, outcome_save hfiled]
  save_eq hheader := by
    have hnames (pair : String × ClassStore) (hpair : pair ∈ report.classes.toList) :
        pair.2.name = pair.1 :=
      (hfiled _ _ (ExtTreeMap.mem_toList_iff_getElem?_eq_some.mp hpair)).1
    rw [stores, ← saveClasses_eq_conclude _ _ hnames, save]
    rcases hwrite : sink.writeAll report.header with ⟨next, outcome⟩
    rw [hwrite] at hheader
    cases hheader
    rfl
  dictionary_eq save hsave := by
    refine dictionary_eq_of_mem_classSaves (fun store hstore ↦ ?_) _ hsave
    exact mem_dictionary hfiled ((mem_stores_iff hfiled).mp hstore)

open Dictionary in
/-- Whatever is interned into an empty dictionary, a name keeps the index that it was given first;
as long as the indices suffice, names and indices stand for each other, and a saved dictionary is
read back with what follows it left. The classes of a report are written with the indices 0, 1, 2
and so on, and none of them interns a name that the header does not have. -/
theorem names_keep_their_indices :
    (∀ calls : List String,
      (∀ later, (ofNames calls).KeepsIndices (ofNames (calls ++ later))) ∧
      (∀ name later, (ofNames (calls ++ name :: later)).index? name =
        some ((ofNames calls).intern name).2) ∧
      ((ofNames calls).size < UInt32.size → (ofNames calls).Numbered ∧
        ∀ sink : Sink, sink.capacity = none → (sink.writeAll (ofNames calls).fields).2 = .ok () →
          ∃ bytes, (sink.writeAll (ofNames calls).fields).1.written =
              sink.written ++ bytes.toByteArray ∧
            ∀ rest, Dictionary.decode (bytes ++ rest) = .ok (ofNames calls, rest))) ∧
    ∀ report : Report, report.Reachable → ∀ sink, report.NumbersClasses sink := by
  refine ⟨fun calls ↦ ⟨keepsIndices_ofNames calls, fun name later ↦ index?_ofNames calls later name,
    fun hsize ↦ ?_⟩, fun report hreport sink ↦ numbersClasses hreport.filed sink⟩
  have hnodup := nodup_ofNames calls
  exact ⟨numbered_of_nodup hnodup (Nat.le_of_lt hsize),
    fun sink hsink hok ↦ decode_of_writeAll hnodup hsize hsink hok⟩

/-- A name that is interned twice, and a report whose classes were not made in the order of their
names. -/
theorem names_keep_their_indices_of_repeated_name :
    let calls := ["b", "ä", "b", "a"]
    let dictionary := Dictionary.ofNames calls
    let report := (ensureClass {} "b").ensureClass "a"
    dictionary.index? "a" = some 2 ∧
      (Dictionary.ofNames (calls ++ ["c", "ä"])).index? "a" = some 2 ∧
      dictionary.size < UInt32.size ∧ dictionary.Numbered ∧
      (({} : Sink).writeAll dictionary.fields).2 = .ok () ∧
      (∃ bytes, (({} : Sink).writeAll dictionary.fields).1.written =
          ByteArray.empty ++ bytes.toByteArray ∧
        ∀ rest, Dictionary.decode (bytes ++ rest) = .ok (dictionary, rest)) ∧
      report.Reachable ∧ report.NumbersClasses {} ∧
      (({} : Sink).writeAll report.header).2 = .ok () := by
  intro calls dictionary report
  obtain ⟨hnames, hreports⟩ := names_keep_their_indices
  obtain ⟨hlater, -, hnumbered⟩ := hnames calls
  have hindex : dictionary.index? "a" = some 2 := by decide +kernel
  have hsize : dictionary.size < UInt32.size := by
    have hthree : dictionary.size = 3 := by decide +kernel
    rw [hthree]
    decide
  have hok : (({} : Sink).writeAll dictionary.fields).2 = .ok () := by decide +kernel
  have hheader : (({} : Sink).writeAll report.header).2 = .ok () := by decide +kernel
  have hreport : report.Reachable := .ensureClass "a" (.ensureClass "b" .empty)
  exact ⟨hindex, (hlater ["c", "ä"] "a" 2 hindex).1, hsize, (hnumbered hsize).1, hok,
    (hnumbered hsize).2 {} rfl hok, hreport, hreports report hreport {}, hheader⟩

end Report

end JvmCoverage
