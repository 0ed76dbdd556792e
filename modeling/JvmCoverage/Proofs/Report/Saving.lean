import JvmCoverage.Proofs.Class.WellFormed
import JvmCoverage.Proofs.Field.RoundTrip
import JvmCoverage.Proofs.Field.Sink
import JvmCoverage.Proofs.Report.Dictionary
import JvmCoverage.Proofs.Report.Operation
/-!
# What a save writes

A save writes one row of fields, `Report.fields`, and flushes the sink when all of them were
written (`Report.sink_save`, `Report.outcome_save`), although it interns a name and folds a mask
before each class. The row depends on nothing but the names of the classes and, class by class, the
records with the counts of the mask added (`Report.fields_congr`). What the save leaves of a class
is the class itself or the class with its mask folded (`Report.partlyFolded_save`), and that does
not change the fields (`Report.PartlyFolded.fields_eq`).
-/

set_option autoImplicit false
set_option relaxedAutoImplicit false

namespace JvmCoverage

namespace Report

variable {report : Report}

/-! ### The classes of a report -/

theorem mem_stores_iff (hfiled : report.Filed) {store : ClassStore} :
    store ∈ report.stores ↔ report.class? store.name = some store := by
  rw [stores, List.mem_map]
  constructor
  · rintro ⟨⟨name, other⟩, hpair, rfl⟩
    have hfound := Std.ExtTreeMap.mem_toList_iff_getElem?_eq_some.mp hpair
    exact (hfiled name other hfound).1 ▸ hfound
  · intro hfound
    exact ⟨(store.name, store), Std.ExtTreeMap.mem_toList_iff_getElem?_eq_some.mpr hfound, rfl⟩

theorem pairwise_stores (hfiled : report.Filed) :
    report.stores.Pairwise fun first second ↦ first.name ≠ second.name := by
  refine List.pairwise_map.mpr (Std.ExtTreeMap.distinct_keys_toList.imp_of_mem ?_)
  intro first second hfirst hsecond hne heq
  have hfirstName := (hfiled _ _ (Std.ExtTreeMap.mem_toList_iff_getElem?_eq_some.mp hfirst)).1
  have hsecondName := (hfiled _ _ (Std.ExtTreeMap.mem_toList_iff_getElem?_eq_some.mp hsecond)).1
  exact hne (Std.compare_eq_iff_eq.mpr (hfirstName.symm.trans (heq.trans hsecondName)))

theorem find?_stores (hfiled : report.Filed) (name : String) :
    report.stores.find? (·.name = name) = report.class? name := by
  cases hfind : report.stores.find? (·.name = name) with
  | some store =>
    have hname : store.name = name := by simpa using List.find?_some hfind
    exact (hname ▸ (mem_stores_iff hfiled).mp (List.mem_of_find?_eq_some hfind)).symm
  | none =>
    cases hfound : report.class? name with
    | none => rfl
    | some store =>
      have hname := (hfiled name store hfound).1
      have hmem := (mem_stores_iff hfiled).mpr (hname ▸ hfound)
      simpa [hname] using List.find?_eq_none.mp hfind store hmem

theorem length_stores (report : Report) : report.stores.length = report.classCount := by
  rw [stores, List.length_map, Std.ExtTreeMap.length_toList]
  rfl

/-- The dictionary of a report is the row of its class names. -/
theorem dictionary_eq (report : Report) : report.dictionary = .row report.classes.keys :=
  Dictionary.ofNames_of_nodup Std.ExtTreeMap.nodup_keys

/-! ### The fields of a report -/

/-- The fields of a class in a report with the given dictionary. -/
def classFields (dictionary : Dictionary) (store : ClassStore) : List Field :=
  store.foldMask.fields (dictionary.intern store.name).2

/-- Every field of a report, from its header to its last class. -/
def fields (report : Report) : List Field :=
  report.header ++ report.stores.flatMap (classFields report.dictionary)

theorem size_dictionary_lt (hcount : report.classCount < UInt32.size) :
    report.dictionary.size < UInt32.size := by
  rw [dictionary_eq, Dictionary.size, Dictionary.names_row, List.size_toArray,
    Std.ExtTreeMap.length_keys]
  exact hcount

theorem mem_dictionary (hfiled : report.Filed) {name : String} {store : ClassStore}
    (hstore : report.class? name = some store) :
    store.name ∈ report.dictionary.names.toList := by
  rw [(hfiled name store hstore).1, dictionary_eq, Dictionary.names_row]
  refine Std.ExtTreeMap.mem_keys.mpr (Std.ExtTreeMap.mem_iff_isSome_getElem?.mpr ?_)
  exact Option.isSome_of_eq_some hstore

/-! ### Writing the fields -/

/-- The dictionary has the name of the class, so it stays as it is. -/
theorem save_class {dictionary : Dictionary} {store : ClassStore}
    (hname : store.name ∈ dictionary.names.toList) (sink : Sink) :
    store.save dictionary sink =
      { store := store.foldMask
        dictionary
        sink := (sink.writeAll (classFields dictionary store)).1
        outcome := (sink.writeAll (classFields dictionary store)).2 } := by
  obtain ⟨slot, -, hintern⟩ := Dictionary.intern_eq_of_mem hname
  rw [ClassStore.save, store.name_foldMask, classFields, hintern]

theorem saveClasses_eq {dictionary : Dictionary} (sink : Sink)
    {classes : List (String × ClassStore)}
    (hnames : ∀ pair ∈ classes, pair.2.name ∈ dictionary.names.toList) :
    (report.saveClasses dictionary sink classes).sink =
        (sink.writeAll (classes.flatMap fun pair ↦ classFields dictionary pair.2)).1 ∧
      (report.saveClasses dictionary sink classes).outcome =
        (sink.writeAll (classes.flatMap fun pair ↦ classFields dictionary pair.2)).2.bind
          fun _ ↦ sink.flush := by
  induction classes generalizing report sink with
  | nil => exact ⟨rfl, rfl⟩
  | cons pair rest ih =>
    obtain ⟨name, store⟩ := pair
    have hsave := save_class (hnames _ List.mem_cons_self) sink
    rw [List.flatMap_cons, Sink.writeAll_append]
    simp only [saveClasses, hsave]
    rw [← sink.flush_writeAll (classFields dictionary store)]
    rcases sink.writeAll (classFields dictionary store) with ⟨next, _ | _⟩
    · exact ⟨rfl, rfl⟩
    · exact ih next fun other hother ↦ hnames other (List.mem_cons_of_mem _ hother)

theorem save_eq (hfiled : report.Filed) (sink : Sink) :
    (report.save sink).sink = (sink.writeAll report.fields).1 ∧
      (report.save sink).outcome =
        (sink.writeAll report.fields).2.bind fun _ ↦ sink.flush := by
  have hnames (pair : String × ClassStore) (hpair : pair ∈ report.classes.toList) :
      pair.2.name ∈ report.dictionary.names.toList :=
    mem_dictionary hfiled (Std.ExtTreeMap.mem_toList_iff_getElem?_eq_some.mp hpair)
  rw [save, fields, Sink.writeAll_append, ← sink.flush_writeAll report.header, stores,
    List.flatMap_map]
  rcases sink.writeAll report.header with ⟨next, _ | _⟩
  · exact ⟨rfl, rfl⟩
  · exact saveClasses_eq next hnames

theorem sink_save (hfiled : report.Filed) (sink : Sink) :
    (report.save sink).sink = (sink.writeAll report.fields).1 := (save_eq hfiled sink).1

theorem outcome_save (hfiled : report.Filed) (sink : Sink) :
    (report.save sink).outcome = (sink.writeAll report.fields).2.bind fun _ ↦ sink.flush :=
  (save_eq hfiled sink).2

/-- On a sink without limit, the report is saved as these bytes. -/
def SavedAs (report : Report) (bytes : List UInt8) : Prop :=
  (report.save {}).outcome = .ok () ∧ (report.save {}).sink.written.toList = bytes

theorem savedAs_iff (hfiled : report.Filed) {bytes : List UInt8} :
    report.SavedAs bytes ↔ Field.encodeAll report.fields = .ok bytes := by
  rw [SavedAs, outcome_save hfiled, sink_save hfiled]
  constructor
  · rintro ⟨hok, rfl⟩
    cases hwrite : (({} : Sink).writeAll report.fields).2 with
    | error error =>
      rw [hwrite] at hok
      cases hok
    | ok =>
      obtain ⟨bytes, hbytes, hwritten⟩ := Sink.written_of_writeAll {} rfl hwrite
      rw [hbytes, hwritten]
      show _ = Except.ok (ByteArray.empty ++ bytes.toByteArray).toList
      rw [ByteArray.empty_append, toList_toByteArray]
  · intro hbytes
    have hwritten := (@Sink.accept_fresh {} rfl bytes).1
    rw [Sink.writeAll_eq_accept {} hbytes]
    refine ⟨rfl, ?_⟩
    rw [hwritten, toList_toByteArray]
    exact List.take_length

/-- Every sink gets the same bytes and gives the same answer. -/
def SavesAlike (first second : Report) : Prop :=
  ∀ sink, (first.save sink).sink = (second.save sink).sink ∧
    (first.save sink).outcome = (second.save sink).outcome

/-- Options that are related are related in any way in which their values are. -/
theorem rel_imp {α β : Type} {r s : α → β → Prop} {first? : Option α} {second? : Option β}
    (hrel : Option.Rel r first? second?)
    (himp : ∀ first second, first? = some first → second? = some second → r first second →
      s first second) : Option.Rel s first? second? := by
  cases hrel with
  | none => exact .none
  | some hvalues => exact .some (himp _ _ rfl rfl hvalues)

/-- The fields of the classes by class name. -/
def fieldTable (report : Report) (dictionary : Dictionary) :
    Std.ExtTreeMap String (List Field) :=
  report.classes.map fun name store ↦ store.foldMask.fields (dictionary.intern name).2

theorem keys_fieldTable (report : Report) (dictionary : Dictionary) :
    (report.fieldTable dictionary).keys = report.classes.keys := Std.ExtTreeMap.keys_map

theorem map_classFields_stores (hfiled : report.Filed) (dictionary : Dictionary) :
    report.stores.map (classFields dictionary) =
      (report.fieldTable dictionary).toList.map Prod.snd := by
  rw [fieldTable, Std.ExtTreeMap.toList_map, stores, List.map_map, List.map_map]
  refine List.map_congr_left fun pair hpair ↦ ?_
  have hname := (hfiled _ _ (Std.ExtTreeMap.mem_toList_iff_getElem?_eq_some.mp hpair)).1
  simp [classFields, hname]

/-- The fields of the classes are known by the fields of each class, its mask folded. -/
theorem fieldTable_congr {first second : Report}
    (hsame : ∀ name, Option.Rel (fun ours theirs : ClassStore ↦
      ∀ index, ours.foldMask.fields index = theirs.foldMask.fields index)
      (first.class? name) (second.class? name)) (dictionary : Dictionary) :
    first.fieldTable dictionary = second.fieldTable dictionary := by
  refine Std.ExtTreeMap.ext_getElem? fun name ↦ ?_
  have hfields := hsame name
  rw [fieldTable, fieldTable, Std.ExtTreeMap.getElem?_map, Std.ExtTreeMap.getElem?_map]
  change (first.class? name).map _ = (second.class? name).map _
  generalize first.class? name = ours?, second.class? name = theirs? at hfields ⊢
  cases hfields with
  | none => rfl
  | some heq => exact congrArg some (heq _)

/-- Reports with the same classes are written alike when each class is. -/
theorem fields_congr_of_classes {first second : Report} (hfirst : first.Filed)
    (hsecond : second.Filed) (hsame : ∀ name, Option.Rel (fun ours theirs : ClassStore ↦
      ∀ index, ours.foldMask.fields index = theirs.foldMask.fields index)
      (first.class? name) (second.class? name)) : first.fields = second.fields := by
  have htable := fieldTable_congr hsame
  have hkeys : first.classes.keys = second.classes.keys := by
    rw [← first.keys_fieldTable {}, htable, second.keys_fieldTable]
  have hdictionary : first.dictionary = second.dictionary := by rw [dictionary, dictionary, hkeys]
  have hcount : first.classCount = second.classCount := by
    rw [classCount, classCount, ← Std.ExtTreeMap.length_keys, hkeys, Std.ExtTreeMap.length_keys]
  rw [fields, fields, header, header, hdictionary, hcount, List.flatMap_def, List.flatMap_def,
    map_classFields_stores hfirst, map_classFields_stores hsecond, htable]

/-- Reports with the same classes are saved alike when their records agree once the masks are
folded. -/
theorem fields_congr {first second : Report} (hfirst : first.Filed) (hsecond : second.Filed)
    (hsame : ∀ name, Option.Rel (fun ours theirs : ClassStore ↦
      ∀ line, ours.foldMask.line? line = theirs.foldMask.line? line)
      (first.class? name) (second.class? name)) : first.fields = second.fields :=
  fields_congr_of_classes hfirst hsecond fun name ↦
    rel_imp (hsame name) fun ours theirs hours htheirs hfind ↦
      ClassStore.fields_congr (LineTable.records_congr
        (hfirst name ours hours).2.wellFormed.foldMask.filed
        (hsecond name theirs htheirs).2.wellFormed.foldMask.filed hfind)

theorem savesAlike_of_fields_eq {first second : Report} (hfirst : first.Filed)
    (hsecond : second.Filed) (hfields : first.fields = second.fields) :
    first.SavesAlike second := by
  intro sink
  rw [sink_save hfirst, sink_save hsecond, outcome_save hfirst, outcome_save hsecond, hfields]
  exact ⟨rfl, rfl⟩

/-! ### The report after a save -/

/-- `after` is the report with the masks of some of its classes folded. -/
def PartlyFolded (report after : Report) : Prop :=
  ∀ name, after.class? name = report.class? name ∨
    after.class? name = (report.class? name).map ClassStore.foldMask

/-- `after` is the report with the masks of all its classes folded. -/
def FullyFolded (report after : Report) : Prop :=
  ∀ name, after.class? name = (report.class? name).map ClassStore.foldMask

theorem partlyFolded_refl (report : Report) : PartlyFolded report report := fun _ ↦ .inl rfl

theorem map_foldMask_twice (store? : Option ClassStore) :
    (store?.map ClassStore.foldMask).map ClassStore.foldMask = store?.map ClassStore.foldMask := by
  cases store? with
  | none => rfl
  | some store => exact congrArg some store.foldMask_foldMask

/-- A mask that was folded is not folded again. -/
theorem PartlyFolded.trans {middle after : Report} (hfirst : PartlyFolded report middle)
    (hsecond : PartlyFolded middle after) : PartlyFolded report after := by
  intro name
  rcases hsecond name with hafter | hafter <;> rcases hfirst name with hmiddle | hmiddle
  · exact .inl (hafter.trans hmiddle)
  · exact .inr (hafter.trans hmiddle)
  · exact .inr (hafter.trans (congrArg _ hmiddle))
  · exact .inr (by rw [hafter, hmiddle, map_foldMask_twice])

theorem PartlyFolded.trans_fully {middle after : Report} (hfirst : PartlyFolded report middle)
    (hsecond : FullyFolded middle after) : FullyFolded report after := by
  intro name
  rcases hfirst name with hmiddle | hmiddle
  · rw [hsecond name, hmiddle]
  · rw [hsecond name, hmiddle, map_foldMask_twice]

theorem FullyFolded.trans_partly {middle after : Report} (hfirst : FullyFolded report middle)
    (hsecond : PartlyFolded middle after) : FullyFolded report after := by
  intro name
  rcases hsecond name with hafter | hafter
  · rw [hafter, hfirst name]
  · rw [hafter, hfirst name, map_foldMask_twice]

theorem PartlyFolded.fields_eq {after : Report} (hfolded : PartlyFolded report after)
    (hreport : report.Filed) (hafter : after.Filed) : after.fields = report.fields := by
  refine fields_congr hafter hreport fun name ↦ ?_
  rcases hfolded name with hname | hname
  · rw [hname]
    cases report.class? name with
    | none => exact .none
    | some store => exact .some fun _ ↦ rfl
  · rw [hname]
    cases report.class? name with
    | none => exact .none
    | some store => exact .some fun line ↦ by rw [store.foldMask_foldMask]

theorem class?_insert_fold (report : Report) (name : String) (store : ClassStore) (other : String) :
    ({ classes := report.classes.insert name store.foldMask } : Report).class? other =
      if name = other then some store.foldMask else report.class? other := by
  simp only [class?, Std.ExtTreeMap.getElem?_insert, Std.compare_eq_iff_eq]

/-- What the save of one class leaves. -/
theorem partlyFolded_insert {name : String} {store : ClassStore}
    (hstore : report.class? name = some store) :
    PartlyFolded report { classes := report.classes.insert name store.foldMask } := by
  intro other
  rw [class?_insert_fold]
  split_ifs with hother
  · exact .inr (by rw [← hother, hstore, Option.map_some])
  · exact .inl rfl

/-- A class without mask is not changed by folding. -/
theorem PartlyFolded.class?_of_folded {after : Report} (hfolded : PartlyFolded report after)
    {name : String} {store : ClassStore} (hstore : report.class? name = some store.foldMask) :
    after.class? name = some store.foldMask := by
  rcases hfolded name with hname | hname
  · exact hname.trans hstore
  · rw [hname, hstore, Option.map_some, store.foldMask_foldMask]

theorem partlyFolded_saveClasses (dictionary : Dictionary) (sink : Sink)
    {classes : List (String × ClassStore)}
    (hdistinct : classes.Pairwise fun first second ↦ first.1 ≠ second.1)
    (hclasses : ∀ pair ∈ classes, report.class? pair.1 = some pair.2) :
    PartlyFolded report (report.saveClasses dictionary sink classes).report ∧
      ((report.saveClasses dictionary sink classes).outcome = .ok () →
        ∀ pair ∈ classes, (report.saveClasses dictionary sink classes).report.class? pair.1 =
          some pair.2.foldMask) := by
  induction classes generalizing report dictionary sink with
  | nil => exact ⟨partlyFolded_refl report, by simp⟩
  | cons pair rest ih =>
    obtain ⟨name, store⟩ := pair
    obtain ⟨hne, hrest⟩ := List.pairwise_cons.mp hdistinct
    have hstore : report.class? name = some store := hclasses (name, store) List.mem_cons_self
    have hfirst := partlyFolded_insert hstore
    have hothers (pair : String × ClassStore) (hpair : pair ∈ rest) :
        ({ classes := report.classes.insert name store.foldMask } : Report).class? pair.1 =
          some pair.2 := by
      rw [class?_insert_fold, if_neg (hne pair hpair)]
      exact hclasses pair (List.mem_cons_of_mem _ hpair)
    rw [saveClasses]
    split
    · obtain ⟨hfolded, hall⟩ :=
        ih (store.save dictionary sink).dictionary (store.save dictionary sink).sink hrest hothers
      refine ⟨hfirst.trans hfolded, fun hok ↦ List.forall_mem_cons.mpr ⟨?_, hall hok⟩⟩
      exact hfolded.class?_of_folded (by rw [class?_insert_fold, if_pos rfl])
    · refine ⟨hfirst, fun hok ↦ ?_⟩
      cases hok

/-- A save folds the masks of some classes, and of all of them when it succeeds. -/
theorem partlyFolded_save (report : Report) (sink : Sink) :
    PartlyFolded report (report.save sink).report ∧
      ((report.save sink).outcome = .ok () → FullyFolded report (report.save sink).report) := by
  have hdistinct : report.classes.toList.Pairwise fun first second ↦ first.1 ≠ second.1 :=
    Std.ExtTreeMap.distinct_keys_toList.imp fun hne heq ↦ hne (Std.compare_eq_iff_eq.mpr heq)
  unfold save
  split
  · next next _ =>
    obtain ⟨hfolded, hall⟩ := partlyFolded_saveClasses report.dictionary next hdistinct
      fun pair hpair ↦ Std.ExtTreeMap.mem_toList_iff_getElem?_eq_some.mp hpair
    refine ⟨hfolded, fun hok name ↦ ?_⟩
    cases hname : report.class? name with
    | none =>
      rcases hfolded name with hafter | hafter
      · rw [hafter, hname, Option.map_none]
      · rw [hafter, hname]
    | some store =>
      exact hall hok (name, store) (Std.ExtTreeMap.mem_toList_iff_getElem?_eq_some.mpr hname)
  · exact ⟨partlyFolded_refl report, by simp⟩

end Report

end JvmCoverage
