import JvmCoverage.Proofs.Class.VisitOrder
import JvmCoverage.Proofs.Report.Saving
/-!
# The saved bytes depend only on the content

`ClassStore.content?` is what a class has to say of a line: its owner, its executions with those in
the mask, the outcomes of its jumps and the counts of its switches, in the order in which they were
declared. It leaves out the ids of branches, and everything that a store remembers of its history.
Reports with the same content are saved alike, however they were made: that is
`Report.save_congr_of_content`. Saving folds masks, which moves executions from one place to another
and leaves the content as it is, so a report can be saved any number of times. And it makes no
difference in which order a writer visits the records of each class.
-/

set_option autoImplicit false
set_option relaxedAutoImplicit false

namespace JvmCoverage

/-- What a report tells of a line. -/
structure LineContent where
  signature : String
  hits : UInt32
  /-- How often each jump was taken and fell through. -/
  jumps : List (UInt32 × UInt32)
  /-- The keys of each switch, the count of its default, and those of its arms. -/
  switches : List (CaseKeys × UInt32 × List UInt32)
  deriving DecidableEq, Repr

namespace LineRecord

def content (record : LineRecord) : LineContent where
  signature := record.signature
  hits := record.hits.value
  jumps := record.jumps.toList.map fun jump ↦ (jump.taken.value, jump.fallen.value)
  switches := record.switches.toList.map fun switch ↦
    (switch.keys, switch.unmatched.value, switch.arms.values)

/-- What is written of a record: its owner and its fields. -/
def written (record : LineRecord) : String × List Field := (record.signature, record.fields)

/-- What is written of a record are its number and its content. -/
theorem written_congr {first second : LineRecord} (hline : first.line = second.line)
    (hcontent : first.content = second.content) : first.written = second.written := by
  obtain ⟨hsignature, hhits, hjumps, hswitches⟩ := LineContent.mk.inj hcontent
  have hjumpCount : first.jumps.size = second.jumps.size := by
    simpa using congrArg List.length hjumps
  have hswitchCount : first.switches.size = second.switches.size := by
    simpa using congrArg List.length hswitches
  have hjumpFields : first.jumps.toList.flatMap JumpRecord.fields =
      second.jumps.toList.flatMap JumpRecord.fields := by
    have hfields := congrArg (List.flatMap fun counts ↦ [Field.int counts.1, .int counts.2]) hjumps
    rwa [List.flatMap_map, List.flatMap_map] at hfields
  have hswitchFields : first.switches.toList.flatMap SwitchRecord.fields =
      second.switches.toList.flatMap SwitchRecord.fields := by
    have hfields := congrArg (List.flatMap fun counts ↦
      counts.1.fields ++ Field.int counts.2.1 :: counts.2.2.map .int) hswitches
    rwa [List.flatMap_map, List.flatMap_map] at hfields
  rw [written, written, fields, fields, hsignature, hline, hhits, hjumpCount, hswitchCount,
    hjumpFields, hswitchFields]

end LineRecord

namespace ClassStore

variable {first second store : ClassStore}

/-- What a class has to say of a line; the executions in the mask count as those of the record. -/
def content? (store : ClassStore) (line : UInt32) : Option LineContent :=
  (store.line? line).map fun record ↦
    { record.content with hits := record.hits.value + store.maskCount line }

/-- Folding the mask moves executions and changes nothing else. -/
theorem content?_eq (store : ClassStore) (line : UInt32) :
    store.content? line = (store.foldMask.line? line).map LineRecord.content := by
  rw [line?_foldMask, Option.map_map]
  rfl

theorem content?_foldMask (store : ClassStore) (line : UInt32) :
    store.foldMask.content? line = store.content? line := by
  rw [content?_eq, content?_eq, foldMask_foldMask]

theorem map_written_recordsOf (store : ClassStore) (signature : String) :
    (store.recordsOf signature).map LineRecord.written =
      (store.records.map LineRecord.written).filter (·.1 = signature) := by
  rw [recordsOf, List.filter_map]
  rfl

/-- The fields of a class are made of what is written of its records. -/
theorem fields_congr_of_written
    (hwritten : first.records.map LineRecord.written = second.records.map LineRecord.written)
    (index : UInt32) : first.fields index = second.fields index := by
  have howners : first.methodSignatures = second.methodSignatures := by
    have hsignatures := congrArg (List.map Prod.fst) hwritten
    rw [List.map_map, List.map_map] at hsignatures
    exact congrArg (fun owners ↦ (Std.ExtTreeSet.ofList owners).toList) hsignatures
  have hgroups : first.groupFields = second.groupFields := by
    funext signature
    have hgroup : (first.recordsOf signature).map LineRecord.written =
        (second.recordsOf signature).map LineRecord.written := by
      rw [map_written_recordsOf, map_written_recordsOf, hwritten]
    have hlength : (first.recordsOf signature).length = (second.recordsOf signature).length := by
      simpa using congrArg List.length hgroup
    have hfields := congrArg (List.flatMap Prod.snd) hgroup
    rw [List.flatMap_map, List.flatMap_map] at hfields
    rw [groupFields, groupFields, hlength]
    exact congrArg (_ :: _ :: ·) hfields
  rw [fields, fields, howners, hgroups]

theorem fields_congr_of_content (hfirst : first.WellFormed) (hsecond : second.WellFormed)
    (hcontent : ∀ line, first.content? line = second.content? line) (index : UInt32) :
    first.foldMask.fields index = second.foldMask.fields index := by
  refine fields_congr_of_written (LineTable.map_records_congr hfirst.foldMask.filed
    hsecond.foldMask.filed LineRecord.written fun line ↦ ?_) index
  have hline := hcontent line
  rw [content?_eq, content?_eq] at hline
  change (first.foldMask.line? line).map LineRecord.written =
    (second.foldMask.line? line).map LineRecord.written
  cases hours : first.foldMask.line? line with
  | none =>
    rw [hours, Option.map_none, eq_comm, Option.map_eq_none_iff] at hline
    rw [hline]
  | some our =>
    rw [hours, Option.map_some, eq_comm, Option.map_eq_some_iff] at hline
    obtain ⟨their, htheirs, hsame⟩ := hline
    have hnumber : our.line = their.line :=
      (hfirst.foldMask.filed.line_eq hours).trans (hsecond.foldMask.filed.line_eq htheirs).symm
    rw [htheirs, Option.map_some, Option.map_some, LineRecord.written_congr hnumber hsame.symm]

end ClassStore

namespace Report

variable {first second report : Report}

/-- The reports have the same classes, and each class says the same of every line. -/
def SameContent (first second : Report) : Prop :=
  ∀ name, Option.Rel (fun ours theirs : ClassStore ↦
    ∀ line, ours.content? line = theirs.content? line) (first.class? name) (second.class? name)

theorem fields_congr_of_content (hfirst : first.Filed) (hsecond : second.Filed)
    (hsame : SameContent first second) : first.fields = second.fields :=
  fields_congr_of_classes hfirst hsecond fun name ↦
    rel_imp (hsame name) fun _ _ hours htheirs hcontent ↦
      ClassStore.fields_congr_of_content (hfirst name _ hours).2.wellFormed
        (hsecond name _ htheirs).2.wellFormed hcontent

/-- A save leaves the content as it is. -/
theorem sameContent_save (report : Report) (sink : Sink) :
    SameContent report (report.save sink).report := by
  intro name
  rcases (report.partlyFolded_save sink).1 name with hname | hname
  · rw [hname]
    cases report.class? name with
    | none => exact .none
    | some store => exact .some fun _ ↦ rfl
  · rw [hname]
    cases report.class? name with
    | none => exact .none
    | some store => exact .some fun line ↦ (store.content?_foldMask line).symm

/-- Every field of a report whose classes are visited in the given order. -/
def fieldsVisiting (report : Report) (order : VisitOrder) : List Field :=
  report.header ++ report.stores.flatMap fun store ↦
    order.fields store.foldMask (report.dictionary.intern store.name).2

theorem fieldsVisiting_eq (hfiled : report.Filed) (order : VisitOrder) :
    report.fieldsVisiting order = report.fields := by
  rw [fieldsVisiting, fields]
  refine congrArg (_ ++ ·) (List.flatMap_congr fun store hstore ↦ ?_)
  exact order.fields_eq (hfiled.mem_stores hstore).wellFormed.foldMask _

/-- Reports with the same content are saved alike, whatever made them: each sink gets the same bytes
and gives the same answer. A report that was saved before is one of them. And the bytes are those
that are written when the records of each class are visited in any other order. -/
theorem save_congr_of_content (hfirst : first.Reachable) (hsecond : second.Reachable)
    (hsame : SameContent first second) :
    first.SavesAlike second ∧
      (∀ sink, first.SavesAlike (first.save sink).report) ∧
      ∀ (order : VisitOrder) (sink : Sink),
        (first.save sink).sink = (sink.writeAll (second.fieldsVisiting order)).1 := by
  have hsaved (sink : Sink) : (first.save sink).report.Reachable := hfirst.saved sink
  refine ⟨?_, fun sink ↦ ?_, fun order sink ↦ ?_⟩
  · exact savesAlike_of_fields_eq hfirst.filed hsecond.filed
      (fields_congr_of_content hfirst.filed hsecond.filed hsame)
  · exact savesAlike_of_fields_eq hfirst.filed (hsaved sink).filed
      (fields_congr_of_content hfirst.filed (hsaved sink).filed (first.sameContent_save sink))
  · rw [sink_save hfirst.filed, fieldsVisiting_eq hsecond.filed,
      fields_congr_of_content hfirst.filed hsecond.filed hsame]

/-- Two histories of one content: line 3 was executed twice and its jump taken once. In the first
store the jump has id 0 and both executions are in the record. In the second one a line was made and
dropped again, the jump has id 7, one execution is in a mask, the status of the method was asked for
and the table is dense. -/
theorem save_congr_of_content_of_histories :
    let plain := ClassOp.applyAll [.ensureLine 3 "m()V" [.addJump 0, .hitJump 0 true, .addHits 2]]
      { name := "C" }
    let other := ClassOp.applyAll [.ensureLine 9 "n()V" [], .removeLine 9,
      .ensureLine 3 "m()V" [.addJump 7, .hit, .hitJump 7 true], .openMask 5, .hitMask 3,
      .methodStatus "m()V", .densify] { name := "C" }
    let first : Report := ({} : Report).insert plain
    let second : Report := ({} : Report).insert other
    first.Reachable ∧ second.Reachable ∧ SameContent first second ∧ first.SavesAlike second ∧
      (first.save {}).sink = (({} : Sink).writeAll (second.fieldsVisiting .backwards)).1 := by
  intro plain other first second
  have hplain : plain.Reachable := .applyAll (.fresh "C") (by simp)
  have hother : other.Reachable := .applyAll (.fresh "C") (by simp)
  have hfirst : first.Reachable := .insert .empty hplain
  have hsecond : second.Reachable := .insert .empty hother
  have hcontent (line : UInt32) : plain.content? line = other.content? line := by
    by_cases hline : line = 3
    · subst hline
      decide +kernel
    · have hnone {store : ClassStore} (hstore : store.Reachable)
          (hlines : store.lineNumbers = [3]) : store.line? line = none := by
        have hmem := LineTable.mem_lineNumbers_iff hstore.wellFormed.filed line
        change line ∈ store.lineNumbers ↔ (store.line? line).isSome = true at hmem
        rw [hlines, List.mem_singleton] at hmem
        simpa [hline] using hmem
      rw [ClassStore.content?, ClassStore.content?, hnone hplain (by decide +kernel),
        hnone hother (by decide +kernel), Option.map_none, Option.map_none]
  have hsame : SameContent first second := fun name ↦ by
    rw [class?_insert, class?_insert]
    by_cases hname : "C" = name
    · have hplainName : plain.name = name := hname
      have hotherName : other.name = name := hname
      rw [if_pos hplainName, if_pos hotherName]
      exact .some hcontent
    · have hplainName : plain.name ≠ name := hname
      have hotherName : other.name ≠ name := hname
      rw [if_neg hplainName, if_neg hotherName]
      exact .none
  obtain ⟨halike, -, hvisited⟩ := save_congr_of_content hfirst hsecond hsame
  exact ⟨hfirst, hsecond, hsame, halike, hvisited .backwards {}⟩

end Report

end JvmCoverage
