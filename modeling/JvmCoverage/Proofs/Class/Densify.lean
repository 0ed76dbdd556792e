import JvmCoverage.Proofs.Class.WellFormed
/-!
# Making a line table dense is not observable

A class store can be made dense at any time, and the next structural change makes it sparse again.
Neither can be seen from outside. `SameContent` relates stores that differ in nothing but the
representation of their line tables, and every operation carries it from the stores it starts with
to those it leaves (`SameContent.apply`).

`Densified` relates a sequence of operations to the same sequence with `ClassOp.densify` inserted
anywhere, also in the sequences that made the stores merged on the way. The main statement,
`Densified.indistinguishable_applyAll`, is about all such sequences: they give the same answers, and
at each point of the longer one the two stores are `Indistinguishable`.
-/

set_option autoImplicit false
set_option relaxedAutoImplicit false

namespace JvmCoverage

/-! ### Stores with the same content -/

/-- The stores differ in nothing but the representation of their line tables. -/
structure SameContent (first second : ClassStore) : Prop where
  name_eq : first.name = second.name
  line?_eq : ∀ line, first.line? line = second.line? line
  maxLine_eq : first.maxLine = second.maxLine
  signatures_eq : first.signatures = second.signatures
  verdicts_eq : first.verdicts = second.verdicts
  mask_eq : first.mask = second.mask

namespace SameContent

variable {first second : ClassStore}

theorem refl (store : ClassStore) : SameContent store store :=
  ⟨rfl, fun _ ↦ rfl, rfl, rfl, rfl, rfl⟩

theorem records_eq (hsame : SameContent first second) (hfirst : first.WellFormed)
    (hsecond : second.WellFormed) : first.records = second.records :=
  LineTable.records_congr hfirst.filed hsecond.filed hsame.line?_eq

theorem containsLine_eq (hsame : SameContent first second) (line : UInt32) :
    first.containsLine line = second.containsLine line := by
  rw [ClassStore.containsLine_eq, ClassStore.containsLine_eq, hsame.line?_eq]

/-- Tables that find the same records afterwards can take the place of tables that did before. -/
theorem withTables (hsame : SameContent first second) {firstTable secondTable : LineTable}
    (hfind : ∀ line, firstTable.find? line = secondTable.find? line) :
    SameContent { first with table := firstTable } { second with table := secondTable } :=
  { hsame with line?_eq := hfind }

/-! #### Operations on one store -/

theorem modifyLine (hsame : SameContent first second) (line : UInt32)
    (f : LineRecord → LineRecord) :
    SameContent (first.modifyLine line f) (second.modifyLine line f) := by
  refine hsame.withTables fun other ↦ ?_
  show (first.modifyLine line f).line? other = (second.modifyLine line f).line? other
  rw [ClassStore.line?_modifyLine, ClassStore.line?_modifyLine, hsame.line?_eq]

theorem addMask (hsame : SameContent first second) (mask : CounterBank) :
    SameContent (first.addMask mask) (second.addMask mask) := by
  refine hsame.withTables fun other ↦ ?_
  show (first.addMask mask).line? other = (second.addMask mask).line? other
  rw [ClassStore.line?_addMask, ClassStore.line?_addMask, hsame.line?_eq]

theorem foldMask (hsame : SameContent first second) :
    SameContent first.foldMask second.foldMask := by
  rw [ClassStore.foldMask, ClassStore.foldMask, ← hsame.mask_eq]
  cases first.mask with
  | none => exact hsame
  | some mask => exact { hsame.addMask mask with mask_eq := rfl }

theorem ensureLine (hsame : SameContent first second) (hfirst : first.WellFormed)
    (hsecond : second.WellFormed) (line : UInt32) (signature : String) :
    SameContent (first.ensureLine line signature) (second.ensureLine line signature) where
  name_eq := hsame.name_eq
  line?_eq other := by
    rw [ClassStore.line?_ensureLine hfirst, ClassStore.line?_ensureLine hsecond, hsame.line?_eq,
      hsame.line?_eq]
  maxLine_eq := congrArg (max · line) hsame.maxLine_eq
  signatures_eq := congrArg (·.insert signature) hsame.signatures_eq
  verdicts_eq := hsame.verdicts_eq
  mask_eq := hsame.mask_eq

theorem restructureLine (hsame : SameContent first second) (hfirst : first.WellFormed)
    (hsecond : second.WellFormed) (line : UInt32) (f : LineRecord → Option LineRecord) :
    SameContent (first.restructureLine line f) (second.restructureLine line f) := by
  have hfind (other : UInt32) : (first.restructureLine line f).line? other =
      (second.restructureLine line f).line? other := by
    rw [ClassStore.line?_restructureLine hfirst, ClassStore.line?_restructureLine hsecond,
      hsame.line?_eq]
  revert hfind
  unfold ClassStore.restructureLine
  rw [hsame.containsLine_eq line]
  by_cases hcontains : second.containsLine line = true
  · rw [if_pos hcontains, if_pos hcontains]
    exact hsame.withTables
  · rw [if_neg hcontains, if_neg hcontains]
    exact fun _ ↦ hsame

theorem rebuilt (hsame : SameContent first second) (hfirst : first.WellFormed)
    (hsecond : second.WellFormed) : SameContent first.rebuilt second.rebuilt :=
  hsame.withTables fun line ↦ by
    rw [LineTable.find?_rebuild hfirst.filed, LineTable.find?_rebuild hsecond.filed]
    exact hsame.line?_eq line

theorem densify (hsame : SameContent first second) (hsecond : second.WellFormed) :
    SameContent first second.densify := by
  have hfind (line : UInt32) : first.line? line = second.densify.line? line := by
    rw [ClassStore.line?_densify hsecond, hsame.line?_eq]
  revert hfind
  unfold ClassStore.densify
  split
  · split
    · exact hsame.withTables
    · exact fun _ ↦ hsame
  · exact fun _ ↦ hsame

theorem methodStatus (hsame : SameContent first second) (hfirst : first.WellFormed)
    (hsecond : second.WellFormed) (signature : String) :
    (first.methodStatus signature).1 = (second.methodStatus signature).1 ∧
      SameContent (first.methodStatus signature).2 (second.methodStatus signature).2 := by
  have hrecords := hsame.records_eq hfirst hsecond
  rw [ClassStore.methodStatus, ClassStore.methodStatus, ← hsame.verdicts_eq]
  cases first.verdicts[signature]? with
  | some status => exact ⟨rfl, hsame⟩
  | none =>
    rw [hrecords]
    exact ⟨rfl, { hsame with
      signatures_eq := congrArg (·.insert signature) hsame.signatures_eq
      verdicts_eq := rfl }⟩

/-! #### Merging -/

theorem mergeRecord (hsame : SameContent first second) (hfirst : first.WellFormed)
    (hsecond : second.WellFormed) (record : LineRecord) :
    (first.mergeRecord record).2 = (second.mergeRecord record).2 ∧
      SameContent (first.mergeRecord record).1 (second.mergeRecord record).1 := by
  have hrebuilt := hsame.rebuilt hfirst hsecond
  cases hours : first.rebuilt.line? record.line with
  | none =>
    rw [ClassStore.mergeRecord_of_absent hours,
      ClassStore.mergeRecord_of_absent (hrebuilt.line?_eq _ ▸ hours)]
    refine ⟨rfl, { hrebuilt with
      line?_eq := fun other ↦ ?_
      maxLine_eq := ?_
      signatures_eq := ?_ }⟩
    · rw [ClassStore.line?_adopt hfirst.rebuilt, ClassStore.line?_adopt hsecond.rebuilt,
        hrebuilt.line?_eq]
    · exact congrArg (max · record.line) hsame.maxLine_eq
    · exact congrArg (·.insert record.signature) hsame.signatures_eq
  | some ours =>
    have hoursSecond := hrebuilt.line?_eq record.line ▸ hours
    cases hmerge : ours.merge record with
    | error error =>
      rw [ClassStore.mergeRecord_of_refused hours hmerge,
        ClassStore.mergeRecord_of_refused hoursSecond hmerge]
      exact ⟨rfl, hrebuilt⟩
    | ok merged =>
      rw [ClassStore.mergeRecord_of_merged hours hmerge,
        ClassStore.mergeRecord_of_merged hoursSecond hmerge]
      exact ⟨rfl, hrebuilt.modifyLine record.line fun _ ↦ merged⟩

theorem mergeMask {firstTheirs secondTheirs : ClassStore} (hsame : SameContent first second)
    (htheirs : SameContent firstTheirs secondTheirs) :
    SameContent (first.mergeMask firstTheirs) (second.mergeMask secondTheirs) := by
  unfold ClassStore.mergeMask
  rw [← htheirs.mask_eq]
  cases firstTheirs.mask with
  | none => exact hsame
  | some mask => exact hsame.addMask mask

theorem conflict?_eq {firstTheirs secondTheirs : ClassStore} (hsame : SameContent first second)
    (htheirs : SameContent firstTheirs secondTheirs)
    (hrecords : firstTheirs.records = secondTheirs.records) :
    first.conflict? firstTheirs = second.conflict? secondTheirs := by
  have hline : first.line? = second.line? := funext hsame.line?_eq
  unfold ClassStore.conflict? ClassStore.lineConflict?
  rw [hsame.name_eq, htheirs.name_eq, hrecords, hline]

theorem mergeInPlace {firstTheirs secondTheirs : ClassStore} (hsame : SameContent first second)
    (hfirst : first.WellFormed) (hsecond : second.WellFormed)
    (htheirs : SameContent firstTheirs secondTheirs) (hfirstTheirs : firstTheirs.WellFormed)
    (hsecondTheirs : secondTheirs.WellFormed) :
    (first.mergeInPlace firstTheirs).2 = (second.mergeInPlace secondTheirs).2 ∧
      SameContent (first.mergeInPlace firstTheirs).1 (second.mergeInPlace secondTheirs).1 := by
  have hrecords := htheirs.records_eq hfirstTheirs hsecondTheirs
  obtain ⟨houtcome, hmerged, -⟩ := ClassStore.mergeInPlace_congr
    (fun first second ↦ SameContent first second ∧ first.WellFormed ∧ second.WellFormed)
    (hsame.conflict?_eq htheirs hrecords) hrecords
    (fun record hrecord _ _ ⟨hsame, hfirst, hsecond⟩ ↦ by
      have hsized := hfirstTheirs.sized_of_mem hrecord
      obtain ⟨hsameOutcome, hnext⟩ := hsame.mergeRecord hfirst hsecond record
      exact ⟨hsameOutcome, hnext, hfirst.mergeRecord hsized, hsecond.mergeRecord hsized⟩)
    (fun _ _ ⟨hsame, hfirst, hsecond⟩ ↦
      ⟨hsame.mergeMask htheirs, hfirst.mergeMask firstTheirs, hsecond.mergeMask secondTheirs⟩)
    ⟨hsame, hfirst, hsecond⟩
  exact ⟨houtcome, hmerged⟩

/-! #### Saving -/

theorem save (hsame : SameContent first second) (hfirst : first.WellFormed)
    (hsecond : second.WellFormed) (dictionary : Dictionary) (sink : Sink) :
    (first.save dictionary sink).dictionary = (second.save dictionary sink).dictionary ∧
      (first.save dictionary sink).sink = (second.save dictionary sink).sink ∧
      (first.save dictionary sink).outcome = (second.save dictionary sink).outcome := by
  have hfolded := hsame.foldMask
  have hrecords := hfolded.records_eq hfirst.foldMask hsecond.foldMask
  have hfields := ClassStore.fields_congr hrecords
  rw [ClassStore.save, ClassStore.save, ← hfolded.name_eq]
  refine ⟨rfl, ?_, ?_⟩
  · dsimp only
    rw [hfields]
  · dsimp only
    rw [hfields]

/-! #### Any operation -/

theorem symm (hsame : SameContent first second) : SameContent second first where
  name_eq := hsame.name_eq.symm
  line?_eq line := (hsame.line?_eq line).symm
  maxLine_eq := hsame.maxLine_eq.symm
  signatures_eq := hsame.signatures_eq.symm
  verdicts_eq := hsame.verdicts_eq.symm
  mask_eq := hsame.mask_eq.symm

theorem restructured?_eq (hsame : SameContent first second) (hfirst : first.WellFormed)
    (hsecond : second.WellFormed) (line : UInt32) :
    ClassOp.restructured? first line = ClassOp.restructured? second line := by
  rw [ClassOp.restructured?, ClassOp.restructured?, hsame.containsLine_eq]
  split
  · exact (hsame.rebuilt hfirst hsecond).line?_eq line
  · rfl

theorem apply (hsame : SameContent first second) (hfirst : first.WellFormed)
    (hsecond : second.WellFormed) (op : ClassOp)
    (htheirs : ∀ theirs, op = .merge theirs → theirs.WellFormed) :
    op.answer first = op.answer second ∧ SameContent (op.apply first) (op.apply second) := by
  cases op with
  | ensureLine line signature edits =>
    have hensured := hsame.ensureLine hfirst hsecond line signature
    refine ⟨?_, hensured.modifyLine line _⟩
    simp only [ClassOp.answer]
    rw [hensured.line?_eq]
  | addJump line id => exact ⟨rfl, hsame.restructureLine hfirst hsecond line _⟩
  | addSwitch line id keys => exact ⟨rfl, hsame.restructureLine hfirst hsecond line _⟩
  | removeLine line =>
    refine ⟨?_, hsame.restructureLine hfirst hsecond line _⟩
    simp only [ClassOp.answer]
    rw [hsame.restructured?_eq hfirst hsecond]
  | dropLastJump line =>
    refine ⟨?_, hsame.restructureLine hfirst hsecond line _⟩
    simp only [ClassOp.answer]
    rw [hsame.restructured?_eq hfirst hsecond]
  | hitLine line => exact ⟨rfl, hsame.modifyLine line _⟩
  | hitJump line id taken => exact ⟨rfl, hsame.modifyLine line _⟩
  | hitSwitch line id key => exact ⟨rfl, hsame.modifyLine line _⟩
  | openMask maxLine => exact ⟨rfl, { hsame with mask_eq := rfl }⟩
  | hitMask line =>
    have hmask := congrArg (Option.map fun mask : CounterBank ↦ mask.hit line.toNat) hsame.mask_eq
    exact ⟨rfl, { hsame with mask_eq := hmask }⟩
  | merge theirs =>
    have htheirs := htheirs theirs rfl
    obtain ⟨houtcome, hmerged⟩ :=
      hsame.mergeInPlace hfirst hsecond (refl theirs) htheirs htheirs
    exact ⟨congrArg ClassOp.Answer.merged houtcome, hmerged⟩
  | methodStatus signature =>
    obtain ⟨hstatus, hasked⟩ := hsame.methodStatus hfirst hsecond signature
    exact ⟨congrArg ClassOp.Answer.status hstatus, hasked⟩
  | save dictionary sink =>
    obtain ⟨hdictionary, hsink, houtcome⟩ := hsame.save hfirst hsecond dictionary sink
    refine ⟨?_, hsame.foldMask⟩
    simp only [ClassOp.answer]
    rw [hdictionary, hsink, houtcome]
  | densify => exact ⟨rfl, ((hsame.densify hsecond).symm.densify hfirst).symm⟩

end SameContent

/-! ### Sequences of operations -/

namespace ClassOp

def isDensify : ClassOp → Bool
  | densify => true
  | _ => false

/-- What the callers of operations get back, leaving out those that make the table dense. -/
def answersOf : List ClassOp → ClassStore → List Answer
  | [], _ => []
  | op :: rest, store =>
    if op.isDensify then answersOf rest (op.apply store)
    else op.answer store :: answersOf rest (op.apply store)

theorem applyAll_concat (ops : List ClassOp) (op : ClassOp) (store : ClassStore) :
    applyAll (ops ++ [op]) store = op.apply (applyAll ops store) :=
  List.foldl_concat _ _ _ _

theorem answersOf_append (ops more : List ClassOp) (store : ClassStore) :
    answersOf (ops ++ more) store = answersOf ops store ++ answersOf more (applyAll ops store) := by
  induction ops generalizing store with
  | nil => rfl
  | cons op rest ih =>
    simp only [List.cons_append, answersOf, ih]
    split <;> rfl

/-- The last operation answers alike in both sequences. -/
theorem answersOf_concat_congr {plain densified : List ClassOp} {op other : ClassOp}
    {start : ClassStore} (hanswers : answersOf plain start = answersOf densified start)
    (hkind : op.isDensify = other.isDensify)
    (hanswer : op.answer (applyAll plain start) = other.answer (applyAll densified start)) :
    answersOf (plain ++ [op]) start = answersOf (densified ++ [other]) start := by
  rw [answersOf_append, answersOf_append, hanswers]
  simp only [answersOf, hkind, hanswer]

end ClassOp

/-- The second sequence is the first one with `ClassOp.densify` inserted anywhere: between its
operations, and in the sequences that made the stores it merges. -/
inductive Densified : List ClassOp → List ClassOp → Prop
  | done : Densified [] []
  | densify {plain densified : List ClassOp} (hbefore : Densified plain densified) :
    Densified plain (densified ++ [.densify])
  | step {plain densified : List ClassOp} (op : ClassOp) (hbefore : Densified plain densified)
    (htheirs : ∀ theirs, op = .merge theirs → theirs.Reachable) :
    Densified (plain ++ [op]) (densified ++ [op])
  | merge {plain densified theirPlain theirDensified : List ClassOp} {theirs : ClassStore}
    (hbefore : Densified plain densified) (htheirs : theirs.Reachable)
    (hmerged : Densified theirPlain theirDensified) :
    Densified (plain ++ [.merge (ClassOp.applyAll theirPlain theirs)])
      (densified ++ [.merge (ClassOp.applyAll theirDensified theirs)])

/-- Nothing that a store tells about its lines differs, and neither do the bytes of a save. -/
structure Indistinguishable (first second : ClassStore) : Prop where
  line?_eq : ∀ line, first.line? line = second.line? line
  lineNumbers_eq : first.lineNumbers = second.lineNumbers
  lineCount_eq : first.lineCount = second.lineCount
  methodSignatures_eq : first.methodSignatures = second.methodSignatures
  maxLine_eq : first.maxLine = second.maxLine
  dictionary_eq : ∀ dictionary sink,
    (first.save dictionary sink).dictionary = (second.save dictionary sink).dictionary
  sink_eq : ∀ dictionary sink,
    (first.save dictionary sink).sink = (second.save dictionary sink).sink
  outcome_eq : ∀ dictionary sink,
    (first.save dictionary sink).outcome = (second.save dictionary sink).outcome

theorem SameContent.indistinguishable {first second : ClassStore}
    (hsame : SameContent first second) (hfirst : first.WellFormed) (hsecond : second.WellFormed) :
    Indistinguishable first second := by
  have hrecords := hsame.records_eq hfirst hsecond
  have hsave := hsame.save hfirst hsecond
  exact {
    line?_eq := hsame.line?_eq
    lineNumbers_eq := congrArg (List.map LineRecord.line) hrecords
    lineCount_eq := congrArg List.length hrecords
    methodSignatures_eq := by
      rw [ClassStore.methodSignatures, ClassStore.methodSignatures, hrecords]
    maxLine_eq := hsame.maxLine_eq
    dictionary_eq := fun dictionary sink ↦ (hsave dictionary sink).1
    sink_eq := fun dictionary sink ↦ (hsave dictionary sink).2.1
    outcome_eq := fun dictionary sink ↦ (hsave dictionary sink).2.2 }

namespace Densified

variable {plain densified : List ClassOp}

/-- Operations on a reachable store lead to reachable stores in both sequences. -/
theorem reachable (hruns : Densified plain densified) {start : ClassStore}
    (hstart : start.Reachable) :
    (ClassOp.applyAll plain start).Reachable ∧ (ClassOp.applyAll densified start).Reachable := by
  induction hruns generalizing start with
  | done => exact ⟨hstart, hstart⟩
  | densify _ ih =>
    rw [ClassOp.applyAll_concat]
    refine ⟨(ih hstart).1, .operated .densify (ih hstart).2 ?_⟩
    rintro theirs ⟨⟩
  | step op _ htheirs ih =>
    rw [ClassOp.applyAll_concat, ClassOp.applyAll_concat]
    exact ⟨.operated op (ih hstart).1 htheirs, .operated op (ih hstart).2 htheirs⟩
  | merge _ htheirs _ ih ihTheirs =>
    rw [ClassOp.applyAll_concat, ClassOp.applyAll_concat]
    refine ⟨.operated _ (ih hstart).1 ?_, .operated _ (ih hstart).2 ?_⟩
    · rintro _ ⟨⟩
      exact (ihTheirs htheirs).1
    · rintro _ ⟨⟩
      exact (ihTheirs htheirs).2

/-- The step lemmas along two sequences, the stores that they merge included. -/
theorem answersOf_eq_and_sameContent (hruns : Densified plain densified) {start : ClassStore}
    (hstart : start.Reachable) :
    ClassOp.answersOf plain start = ClassOp.answersOf densified start ∧
      SameContent (ClassOp.applyAll plain start) (ClassOp.applyAll densified start) := by
  induction hruns generalizing start with
  | done => exact ⟨rfl, .refl start⟩
  | densify hbefore ih =>
    obtain ⟨hanswers, hsame⟩ := ih hstart
    rw [ClassOp.answersOf_append, ClassOp.applyAll_concat, ← hanswers]
    exact ⟨(List.append_nil _).symm, hsame.densify (hbefore.reachable hstart).2.wellFormed⟩
  | step op hbefore htheirs ih =>
    obtain ⟨hanswers, hsame⟩ := ih hstart
    obtain ⟨hplain, hdensified⟩ := hbefore.reachable hstart
    obtain ⟨hanswer, hnext⟩ := hsame.apply hplain.wellFormed hdensified.wellFormed op
      fun theirs hop ↦ (htheirs theirs hop).wellFormed
    rw [ClassOp.applyAll_concat, ClassOp.applyAll_concat]
    exact ⟨ClassOp.answersOf_concat_congr hanswers rfl hanswer, hnext⟩
  | merge hbefore htheirs hmerged ih ihTheirs =>
    obtain ⟨hanswers, hsame⟩ := ih hstart
    obtain ⟨hplain, hdensified⟩ := hbefore.reachable hstart
    obtain ⟨htheirPlain, htheirDensified⟩ := hmerged.reachable htheirs
    obtain ⟨houtcome, hnext⟩ := hsame.mergeInPlace hplain.wellFormed hdensified.wellFormed
      (ihTheirs htheirs).2 htheirPlain.wellFormed htheirDensified.wellFormed
    rw [ClassOp.applyAll_concat, ClassOp.applyAll_concat]
    exact ⟨ClassOp.answersOf_concat_congr hanswers rfl (congrArg ClassOp.Answer.merged houtcome),
      hnext⟩

/-- Each point of the longer sequence stands at a point of the shorter one. -/
theorem exists_prefix (hruns : Densified plain densified) {before : List ClassOp}
    (hbefore : before <+: densified) : ∃ passed, passed <+: plain ∧ Densified passed before := by
  induction hruns with
  | done =>
    obtain rfl := List.prefix_nil.mp hbefore
    exact ⟨[], List.prefix_rfl, .done⟩
  | densify hruns ih =>
    rcases List.prefix_concat_iff.mp hbefore with rfl | hbefore
    · exact ⟨_, List.prefix_rfl, .densify hruns⟩
    · exact ih hbefore
  | step op hruns htheirs ih =>
    rcases List.prefix_concat_iff.mp hbefore with rfl | hbefore
    · exact ⟨_, List.prefix_rfl, .step op hruns htheirs⟩
    · obtain ⟨passed, hpassed, hpoint⟩ := ih hbefore
      exact ⟨passed, hpassed.trans (List.prefix_append _ _), hpoint⟩
  | merge hruns htheirs hmerged ih _ =>
    rcases List.prefix_concat_iff.mp hbefore with rfl | hbefore
    · exact ⟨_, List.prefix_rfl, .merge hruns htheirs hmerged⟩
    · obtain ⟨passed, hpassed, hpoint⟩ := ih hbefore
      exact ⟨passed, hpassed.trans (List.prefix_append _ _), hpoint⟩

/-- Making tables dense along the way changes no answer and nothing that can be looked up or saved,
at any point; and a store with a line past those of a class file is not dense. -/
theorem indistinguishable_applyAll {start : ClassStore} (hstart : start.Reachable)
    (hruns : Densified plain densified) :
    ClassOp.answersOf plain start = ClassOp.answersOf densified start ∧
      ∀ before, before <+: densified → ∃ passed, passed <+: plain ∧ Densified passed before ∧
        Indistinguishable (ClassOp.applyAll passed start) (ClassOp.applyAll before start) ∧
        (highestLineNumber < (ClassOp.applyAll before start).maxLine →
          (ClassOp.applyAll before start).isDense = false) := by
  refine ⟨(hruns.answersOf_eq_and_sameContent hstart).1, fun before hbefore ↦ ?_⟩
  obtain ⟨passed, hpassed, hpoint⟩ := hruns.exists_prefix hbefore
  obtain ⟨hfirst, hsecond⟩ := hpoint.reachable hstart
  have hsame := (hpoint.answersOf_eq_and_sameContent hstart).2
  refine ⟨passed, hpassed, hpoint, hsame.indistinguishable hfirst.wellFormed hsecond.wellFormed,
    fun hmax ↦ ?_⟩
  -- a dense table would bound the highest line
  rw [← Bool.not_eq_true]
  intro hdense
  exact UInt32.not_le.mpr hmax (hsecond.wellFormed.filed.maxLine_le hdense)

/-- A store that is made dense twice, and merges a store that was made dense. -/
theorem indistinguishable_applyAll_merge :
    let start : ClassStore := { name := "C" }
    let plain : List ClassOp := [.ensureLine 3 "m()V" [.hit],
      .merge (ClassOp.applyAll [.ensureLine 4 "m()V" []] start), .removeLine 3]
    let densified : List ClassOp := [.ensureLine 3 "m()V" [.hit], .densify,
      .merge (ClassOp.applyAll [.ensureLine 4 "m()V" [], .densify] start), .densify, .removeLine 3]
    start.Reachable ∧ Densified plain densified ∧
      ClassOp.answersOf plain start = ClassOp.answersOf densified start := by
  intro start plain densified
  have hstart : start.Reachable := .fresh "C"
  have htheirs : Densified [.ensureLine 4 "m()V" []] [.ensureLine 4 "m()V" [], .densify] :=
    .densify (.step _ .done (by rintro _ ⟨⟩))
  have hruns : Densified plain densified :=
    .step _ (.densify (.merge (.densify (.step _ .done (by rintro _ ⟨⟩))) hstart htheirs))
      (by rintro _ ⟨⟩)
  exact ⟨hstart, hruns, (indistinguishable_applyAll hstart hruns).1⟩

end Densified

end JvmCoverage
