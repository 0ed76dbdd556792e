import JvmCoverage.Proofs.Discovery.Operation
/-!
# Every visit is in exactly one snapshot

A snapshot of a visit map, by `Discovery.take` or by the end of a test, reports the methods that
were visited since the last one. `Discovery.VisitedSince` says this of a history of operations,
without a look at the flags: some visit of the method, which was there, has had no snapshot after
it. The flags say the same (`Discovery.isVisited_run_iff`). A visit is not seen beyond the first
snapshot after it: two discoveries that differ in the flags of one map (`Discovery.AgreeBut`) are
the same after the next snapshot of it. `Discovery.run_reports_visits_once` puts both together, for
any history. Everyone who traced a class has the same handle, so it does not matter through whose
handle a map is visited or taken.
-/

set_option autoImplicit false
set_option relaxedAutoImplicit false

namespace JvmCoverage

/-- What `p` selects of a row, by the positions that it selects. -/
theorem map_filter_eq_positions {α β : Type} (p : α → Bool) (f : α → β) (items : List α) :
    ((items.filter p).map f).map some =
      ((List.range items.length).filter fun position ↦ items[position]?.any p).map
        ((items.map f)[·]?) := by
  induction items using List.reverseRecOn with
  | nil => rfl
  | append_singleton items last ih =>
    have hearlier (position : Nat) (hposition : position ∈ List.range items.length) :
        (items ++ [last])[position]? = items[position]? :=
      List.getElem?_append_left (List.mem_range.mp hposition)
    have hselected : ((List.range items.length).filter fun position ↦
        (items ++ [last])[position]?.any p) =
          (List.range items.length).filter fun position ↦ items[position]?.any p :=
      List.filter_congr fun position hposition ↦ by rw [hearlier position hposition]
    have hnames : ((List.range items.length).filter fun position ↦ items[position]?.any p).map
        (((items ++ [last]).map f)[·]?) =
          ((List.range items.length).filter fun position ↦ items[position]?.any p).map
            ((items.map f)[·]?) :=
      List.map_congr_left fun position hposition ↦ by
        rw [List.getElem?_map, List.getElem?_map,
          hearlier position (List.mem_filter.mp hposition).1]
    rw [List.length_append, List.length_singleton, List.range_succ, List.filter_append,
      List.filter_append, hselected, List.map_append, List.map_append, List.map_append, hnames, ih]
    by_cases hlast : p last = true <;> simp [hlast]

namespace Discovery

variable {discovery first second : Discovery} {handle : Handle} {method : Nat}

/-- The map under the handle has the method. -/
def hasMethod (discovery : Discovery) (handle : Handle) (method : Nat) : Bool :=
  (discovery.map? handle).any (method < ·.size)

/-- After the history, some visit of the method has not been reported: the map had the method, and
there was no snapshot of the map since. -/
def VisitedSince (ops : List DiscoveryOp) (handle : Handle) (method : Nat) : Prop :=
  ∃ before after, ops = before ++ .visit handle method :: after ∧
    (run before).hasMethod handle method = true ∧ ∀ op ∈ after, op.snapshots handle = false

/-- The names are those of the methods that were visited since the last snapshot, one for each
method id, by ascending id. -/
def Reports (ops : List DiscoveryOp) (handle : Handle) (methods names : List String) : Prop :=
  ∃ ids : List Nat, ids.Pairwise (· < ·) ∧ (∀ id, id ∈ ids ↔ VisitedSince ops handle id) ∧
    names.map some = ids.map (methods[·]?)

/-! ### The flags -/

theorem isVisited_of_some {visits : VisitMap} (hvisits : discovery.map? handle = some visits)
    (method : Nat) : discovery.isVisited handle method = visits.isVisited method := by
  rw [isVisited, hvisits, Option.any_some]

theorem isVisited_of_none (hnone : discovery.map? handle = none) (method : Nat) :
    discovery.isVisited handle method = false := by
  rw [isVisited, hnone, Option.any_none]

/-- A flag is set by a visit of its method, and kept until a snapshot of its map. -/
theorem isVisited_apply (op : DiscoveryOp) (discovery : Discovery) (handle : Handle)
    (method : Nat) :
    (op.apply discovery).isVisited handle method = true ↔
      (op = .visit handle method ∧ discovery.hasMethod handle method = true) ∨
        (op.snapshots handle = false ∧ discovery.isVisited handle method = true) := by
  cases hvisits : discovery.map? handle with
  | none =>
    have hnotVisited : (op.apply discovery).isVisited handle method = false := by
      rw [isVisited, map?_apply_of_none op hvisits]
      cases op with
      | trace className methods => dsimp only; split_ifs <;> simp
      | create className methods => dsimp only; split_ifs <;> simp
      | _ => rfl
    simp [hnotVisited, hasMethod, hvisits, isVisited_of_none hvisits]
  | some visits =>
    rw [isVisited_of_some (map?_apply_of_some op hvisits), isVisited_of_some hvisits, hasMethod,
      hvisits, Option.any_some]
    simpa using op.isVisited_effect handle visits method

theorem visitedSince_concat (ops : List DiscoveryOp) (op : DiscoveryOp) (handle : Handle)
    (method : Nat) :
    VisitedSince (ops ++ [op]) handle method ↔
      (op = .visit handle method ∧ (run ops).hasMethod handle method = true) ∨
        (op.snapshots handle = false ∧ VisitedSince ops handle method) := by
  constructor
  · rintro ⟨before, after, hsplit, hmethod, hquiet⟩
    rcases List.eq_nil_or_concat after with rfl | ⟨after, last, rfl⟩
    · obtain ⟨rfl, hlast⟩ := List.append_inj' hsplit rfl
      cases hlast
      exact .inl ⟨rfl, hmethod⟩
    · have hsame : ops ++ [op] = (before ++ .visit handle method :: after) ++ [last] := by
        simpa using hsplit
      obtain ⟨rfl, hlast⟩ := List.append_inj' hsame rfl
      cases hlast
      refine .inr ⟨hquiet op (by simp), before, after, rfl, hmethod, fun other hother ↦ ?_⟩
      exact hquiet other (by simp [hother])
  · rintro (⟨rfl, hmethod⟩ | ⟨hsnapshots, before, after, rfl, hmethod, hquiet⟩)
    · exact ⟨ops, [], rfl, hmethod, by simp⟩
    · refine ⟨before, after ++ [op], by simp, hmethod, fun other hother ↦ ?_⟩
      rcases List.mem_append.mp hother with hmem | hmem
      · exact hquiet other hmem
      · exact List.mem_singleton.mp hmem ▸ hsnapshots

/-- The flag of a method is set exactly when a visit of it has not been reported. -/
theorem isVisited_run_iff (ops : List DiscoveryOp) (handle : Handle) (method : Nat) :
    (run ops).isVisited handle method = true ↔ VisitedSince ops handle method := by
  induction ops using List.reverseRecOn with
  | nil =>
    refine iff_of_false ?_ ?_
    · have hnone : (run []).map? handle = none := by cases handle <;> simp [run, applyAll, map?]
      simp [isVisited_of_none hnone]
    · rintro ⟨before, after, hsplit, -⟩
      simp at hsplit
  | append_singleton ops op ih =>
    rw [run_concat, isVisited_apply, visitedSince_concat, ih]

/-! ### What a snapshot reports -/

/-- The names that a map has for its visited methods are a report of the history. -/
theorem reports_visitedNames {ops : List DiscoveryOp} {visits : VisitMap}
    (hvisits : (run ops).map? handle = some visits) :
    Reports ops handle visits.methodNames visits.visitedNames := by
  refine ⟨_, List.pairwise_lt_range.filter _, fun id ↦ ?_, map_filter_eq_positions _ _ _⟩
  rw [List.mem_filter, List.mem_range, ← isVisited_run_iff, isVisited_of_some hvisits,
    VisitMap.isVisited, Array.getElem?_toList]
  refine and_iff_right_of_imp fun hvisited ↦ ?_
  obtain ⟨traced, htraced, -⟩ := (Option.any_eq_true _ _).mp hvisited
  exact (Array.getElem?_eq_some_iff.mp htraced).1

/-- A footprint has the classes whose maps saw something, each with what its map saw. -/
theorem classes_endTest (discovery : Discovery) (test className : String) :
    (discovery.endTest test).1.classes[className]? =
      (discovery.map? (.traced className)).bind fun visits ↦
        if visits.visitedNames.isEmpty then none else some visits.visitedNames := by
  simp [endTest, map?]

theorem isVisited_endTest (discovery : Discovery) (test className : String) (method : Nat) :
    (discovery.endTest test).2.isVisited (.traced className) method = false := by
  rw [isVisited, map?_endTest]
  cases discovery.map? (.traced className) <;> simp [Handle.isTraced]

/-! ### Discoveries that differ in the flags of one map -/

/-- The discoveries have the same maps, but for the flags of one of them. -/
structure AgreeBut (handle : Handle) (first second : Discovery) : Prop where
  others : ∀ other ≠ handle, first.map? other = second.map? other
  cleared : (first.map? handle).map VisitMap.reset = (second.map? handle).map VisitMap.reset
  size_eq : first.loose.size = second.loose.size

theorem size_loose_modify (discovery : Discovery) (handle : Handle) (f : VisitMap → VisitMap) :
    (discovery.modify handle f).loose.size = discovery.loose.size := by
  cases handle with
  | traced className => rfl
  | loose position => exact Array.size_modify

theorem size_loose_apply (op : DiscoveryOp) (hsize : first.loose.size = second.loose.size) :
    (op.apply first).loose.size = (op.apply second).loose.size := by
  cases op with
  | trace className methods => exact hsize
  | create className methods => simpa [DiscoveryOp.apply, create] using hsize
  | visit visited method => simpa [DiscoveryOp.apply, visit, size_loose_modify] using hsize
  | take taken => simpa [DiscoveryOp.apply, take, reset, size_loose_modify] using hsize
  | endTest test => exact hsize

/-- What an operation leaves under a handle depends on what was there. -/
theorem map?_apply_congr (op : DiscoveryOp) (hmap : first.map? handle = second.map? handle)
    (hsize : first.loose.size = second.loose.size) :
    (op.apply first).map? handle = (op.apply second).map? handle := by
  cases hvisits : second.map? handle with
  | none =>
    rw [map?_apply_of_none op hvisits, map?_apply_of_none op (hmap.trans hvisits), hsize]
  | some visits =>
    rw [map?_apply_of_some op hvisits, map?_apply_of_some op (hmap.trans hvisits)]

namespace AgreeBut

theorem visit (discovery : Discovery) (handle : Handle) (method : Nat) :
    AgreeBut handle (discovery.visit handle method) discovery where
  others other hother := by
    rw [Discovery.visit, map?_modify]
    simp only [if_neg (Ne.symm hother), Option.map_id']
  cleared := by
    rw [Discovery.visit, map?_modify, Option.map_map]
    exact Option.map_congr fun visits _ ↦ by simp
  size_eq := size_loose_modify discovery handle _

/-- The map is there in both or in neither. -/
theorem cases_map? (hagree : AgreeBut handle first second) :
    first.map? handle = second.map? handle ∨ ∃ ours theirs, first.map? handle = some ours ∧
      second.map? handle = some theirs ∧ ours.reset = theirs.reset := by
  have hcleared := hagree.cleared
  cases hfirst : first.map? handle with
  | none =>
    rw [hfirst, Option.map_none] at hcleared
    exact .inl (Option.map_eq_none_iff.mp hcleared.symm).symm
  | some ours =>
    rw [hfirst, Option.map_some] at hcleared
    obtain ⟨theirs, hsecond, hreset⟩ := Option.map_eq_some_iff.mp hcleared.symm
    exact .inr ⟨ours, theirs, rfl, hsecond, hreset.symm⟩

theorem apply (hagree : AgreeBut handle first second) (op : DiscoveryOp) :
    AgreeBut handle (op.apply first) (op.apply second) where
  others other hother := map?_apply_congr op (hagree.others other hother) hagree.size_eq
  cleared := by
    rcases hagree.cases_map? with hsame | ⟨ours, theirs, hfirst, hsecond, hreset⟩
    · rw [map?_apply_congr op hsame hagree.size_eq]
    · rw [map?_apply_of_some op hfirst, map?_apply_of_some op hsecond, Option.map_some,
        Option.map_some, op.reset_effect, op.reset_effect, hreset]
  size_eq := size_loose_apply op hagree.size_eq

theorem eq_of_snapshots (hagree : AgreeBut handle first second) {op : DiscoveryOp}
    (hsnapshots : op.snapshots handle = true) : op.apply first = op.apply second := by
  refine eq_of_map?_eq fun other ↦ ?_
  by_cases hother : other = handle
  · subst hother
    rcases hagree.cases_map? with hsame | ⟨ours, theirs, hfirst, hsecond, hreset⟩
    · exact map?_apply_congr op hsame hagree.size_eq
    · rw [map?_apply_of_some op hfirst, map?_apply_of_some op hsecond,
        op.effect_of_snapshots hsnapshots, op.effect_of_snapshots hsnapshots, hreset]
  · exact map?_apply_congr op (hagree.others other hother) hagree.size_eq

/-- Nothing is left of the difference once there was a snapshot of the map. -/
theorem applyAll_eq {ops : List DiscoveryOp} (hagree : AgreeBut handle first second)
    (hsnapshot : ∃ op ∈ ops, op.snapshots handle = true) :
    applyAll ops first = applyAll ops second := by
  induction ops generalizing first second with
  | nil => simp at hsnapshot
  | cons op rest ih =>
    show applyAll rest (op.apply first) = applyAll rest (op.apply second)
    by_cases hsnapshots : op.snapshots handle = true
    · rw [hagree.eq_of_snapshots hsnapshots]
    · exact ih (hagree.apply op) (by simpa [hsnapshots] using hsnapshot)

end AgreeBut

/-! ### What no footprint depends on -/

/-- Visiting a method that is not there changes nothing. -/
theorem visit_of_hasMethod_eq_false (hmethod : discovery.hasMethod handle method = false) :
    discovery.visit handle method = discovery := by
  refine eq_of_map?_eq fun other ↦ ?_
  rw [visit, map?_modify]
  by_cases hother : handle = other
  · subst hother
    rw [hasMethod, Option.any_eq_false] at hmethod
    refine (Option.map_congr fun visits hvisits ↦ ?_).trans Option.map_id'
    have hsize : visits.size ≤ method := by simpa using hmethod visits hvisits
    rw [if_pos rfl, VisitMap.visit_of_size_le hsize]
  · simp only [if_neg hother, Option.map_id']

end Discovery

/-- The operation is about the registered maps. -/
def DiscoveryOp.onRegistry : DiscoveryOp → Bool
  | .trace _ _ => true
  | .create _ _ => false
  | .visit handle _ => handle.isTraced
  | .take handle => handle.isTraced
  | .endTest _ => true

namespace Discovery

theorem traced_modify_loose (discovery : Discovery) {handle : Handle}
    (hloose : handle.isTraced = false) (f : VisitMap → VisitMap) :
    (discovery.modify handle f).traced = discovery.traced := by
  cases handle with
  | traced className => cases hloose
  | loose position => rfl

theorem traced_apply_of_onRegistry_eq_false {op : DiscoveryOp} (hloose : op.onRegistry = false)
    (discovery : Discovery) : (op.apply discovery).traced = discovery.traced := by
  cases op with
  | trace className methods => cases hloose
  | create className methods => rfl
  | visit visited method => exact traced_modify_loose discovery hloose _
  | take taken => exact traced_modify_loose discovery hloose _
  | endTest test => cases hloose

theorem traced_modify_congr {first second : Discovery} (htraced : first.traced = second.traced)
    (handle : Handle) (f : VisitMap → VisitMap) :
    (first.modify handle f).traced = (second.modify handle f).traced := by
  cases handle with
  | traced className => exact congrArg (·.modify className f) htraced
  | loose position => exact htraced

theorem traced_apply_congr (op : DiscoveryOp) {first second : Discovery}
    (htraced : first.traced = second.traced) :
    (op.apply first).traced = (op.apply second).traced := by
  cases op with
  | trace className methods => simp only [DiscoveryOp.apply, trace, htraced]
  | create className methods => exact htraced
  | visit visited method => exact traced_modify_congr htraced visited _
  | take taken => exact traced_modify_congr htraced taken _
  | endTest test => simp only [DiscoveryOp.apply, endTest, htraced]

/-- The registered maps depend on the operations that are about them. -/
theorem traced_run_filter (ops : List DiscoveryOp) :
    (run (ops.filter DiscoveryOp.onRegistry)).traced = (run ops).traced := by
  induction ops using List.reverseRecOn with
  | nil => rfl
  | append_singleton ops op ih =>
    rw [List.filter_append, run_concat]
    by_cases hregistry : op.onRegistry = true
    · rw [List.filter_cons_of_pos hregistry, List.filter_nil, run_concat]
      exact traced_apply_congr op ih
    · rw [List.filter_cons_of_neg hregistry, List.filter_nil, List.append_nil,
        traced_apply_of_onRegistry_eq_false (Bool.not_eq_true _ ▸ hregistry)]
      exact ih

theorem endTest_congr {first second : Discovery} (htraced : first.traced = second.traced)
    (test : String) : (first.endTest test).1 = (second.endTest test).1 := by
  rw [endTest, endTest, htraced]

/-! ### Any history -/

/-- A class that was traced has an entry for what was visited of it since the last snapshot, when
anything was. A class that was not traced has none. -/
theorem footprint_run (ops : List DiscoveryOp) (test className : String) :
    match firstTrace? ops className with
    | none => ((run ops).endTest test).1.classes[className]? = none
    | some methods => ∃ names, Reports ops (.traced className) methods names ∧
      ((run ops).endTest test).1.classes[className]? = if names = [] then none else some names := by
  have htraced := map?_run_traced ops className
  rw [classes_endTest]
  cases hvisits : (run ops).map? (.traced className) with
  | none =>
    rw [hvisits] at htraced
    rw [Option.map_eq_none_iff.mp htraced.symm]
    rfl
  | some visits =>
    rw [hvisits] at htraced
    obtain ⟨methods, hmethods, heq⟩ := Option.map_eq_some_iff.mp htraced.symm
    rw [hmethods]
    refine ⟨visits.visitedNames, (Prod.mk.inj heq).2 ▸ reports_visitedNames hvisits, ?_⟩
    simp [List.isEmpty_iff]

/-- Every snapshot reports the visits since the last one, and no visit is in two of them. -/
theorem run_reports_visits_once (ops : List DiscoveryOp) :
    -- a class has the map of its first trace, and every map stays with its methods
    (∀ className, ((run ops).map? (.traced className)).map
        (fun visits ↦ (visits.className, visits.methodNames)) =
          (firstTrace? ops className).map fun methods ↦ (className, methods)) ∧
      (∀ className methods again, firstTrace? ops className = some methods →
        (run ops).trace className again = (run ops, .traced className)) ∧
      (∀ after handle visits, (run ops).map? handle = some visits →
        ∃ later, (run (ops ++ after)).map? handle = some later ∧ later.size = visits.size ∧
          later.className = visits.className ∧ later.methodNames = visits.methodNames) ∧
      -- what the snapshots report
      (∀ handle visits, (run ops).map? handle = some visits →
        Reports ops handle visits.methodNames ((run ops).take handle).1) ∧
      (∀ test, ((run ops).endTest test).1.test = test ∧
        (∀ className, match firstTrace? ops className with
          | none => ((run ops).endTest test).1.classes[className]? = none
          | some methods => ∃ names, Reports ops (.traced className) methods names ∧
            ((run ops).endTest test).1.classes[className]? =
              if names = [] then none else some names) ∧
        ∀ className id, ((run ops).endTest test).2.isVisited (.traced className) id = false) ∧
      -- a visit is reported by the first snapshot after it, and then it is as if it had not been
      (∀ handle id after, (run ops).hasMethod handle id = true →
        (∀ op ∈ after, op.snapshots handle = false) →
          VisitedSince (ops ++ .visit handle id :: after) handle id) ∧
      (∀ handle id after,
        (∃ op ∈ after, op.snapshots handle = true) ∨ (run ops).hasMethod handle id = false →
          run (ops ++ .visit handle id :: after) = run (ops ++ after)) ∧
      -- maps outside the registry are in no footprint
      ∀ test, ((run (ops.filter DiscoveryOp.onRegistry)).endTest test).1 =
        ((run ops).endTest test).1 := by
  refine ⟨map?_run_traced ops, ?_, ?_, ?_, ?_, ?_, ?_, ?_⟩
  · intro className methods again hfirst
    have htraced := map?_run_traced ops className
    rw [hfirst] at htraced
    obtain ⟨visits, hvisits, -⟩ := Option.map_eq_some_iff.mp htraced
    exact trace_of_map? hvisits again
  · intro after handle visits hvisits
    obtain ⟨later, hlater, hclass, hmethods⟩ := map?_applyAll_of_some after hvisits
    refine ⟨later, run_append ops after ▸ hlater, ?_, hclass, hmethods⟩
    rw [← later.length_methodNames, hmethods, visits.length_methodNames]
  · intro handle visits hvisits
    rw [take, hvisits, Option.map_some, Option.getD_some]
    exact reports_visitedNames hvisits
  · exact fun test ↦ ⟨rfl, footprint_run ops test, isVisited_endTest _ test⟩
  · exact fun handle id after hmethod hquiet ↦ ⟨ops, after, rfl, hmethod, hquiet⟩
  · intro handle id after hgone
    rw [run_append, run_append]
    show applyAll after ((run ops).visit handle id) = _
    rcases hgone with hsnapshot | hmissing
    · exact (AgreeBut.visit _ _ _).applyAll_eq hsnapshot
    · rw [visit_of_hasMethod_eq_false hmissing]
  · exact fun test ↦ endTest_congr (traced_run_filter ops) test

/-- The first visit is taken before the test ends, the second trace does not count, and neither do
the visits of a map outside the registry and of a method that is not there. -/
theorem run_reports_visits_once_of_retrace :
    let ops : List DiscoveryOp := [.trace "Foo" ["a", "b", "a"], .visit (.traced "Foo") 0,
      .take (.traced "Foo"), .trace "Foo" ["x"], .create "Foo" ["a"], .visit (.loose 0) 0,
      .visit (.traced "Foo") 2, .visit (.traced "Foo") 9]
    Reports ops (.traced "Foo") ["a", "b", "a"] ["a"] ∧
      ((run ops).endTest "first").1.classes["Foo"]? = some ["a"] := by
  intro ops
  obtain ⟨-, -, -, -, hends, -⟩ := run_reports_visits_once ops
  have hclass := (hends "first").2.1 "Foo"
  rw [show firstTrace? ops "Foo" = some ["a", "b", "a"] by decide +kernel] at hclass
  obtain ⟨names, hreports, hnames⟩ := hclass
  have hvalue : ((run ops).endTest "first").1.classes["Foo"]? = some ["a"] := by decide +kernel
  rw [hvalue] at hnames
  split_ifs at hnames with hempty
  exact ⟨Option.some.inj hnames ▸ hreports, hvalue⟩

end Discovery

end JvmCoverage
