import JvmCoverage.Discovery.Registry
import Mathlib.Data.List.Induction
import Mathlib.Tactic.SplitIfs
/-!
# Operations on visit maps

`DiscoveryOp` lists what happens to the visit maps of a discovery, and `Discovery.run` is the
discovery after a history of operations. A handle finds the same map for good: once there is a map
under it, an operation does no more to that map than `DiscoveryOp.effect` says
(`Discovery.map?_apply_of_some`), which leaves its class and its methods alone. A class has the map
of its first trace (`Discovery.map?_run_traced`).
-/

set_option autoImplicit false
set_option relaxedAutoImplicit false

namespace JvmCoverage

namespace VisitMap

/-- The names of all methods, visited or not. -/
def methodNames (visits : VisitMap) : List String := visits.methods.toList.map TracedMethod.name

theorem length_methodNames (visits : VisitMap) : visits.methodNames.length = visits.size := by
  simp [methodNames, size]

@[simp] theorem methodNames_visit (visits : VisitMap) (method : Nat) :
    (visits.visit method).methodNames = visits.methodNames := by
  refine List.ext_getElem? fun slot ↦ ?_
  simp only [methodNames, visit, Array.toList_modify, List.getElem?_map, List.getElem?_modify]
  split_ifs <;> cases visits.methods.toList[slot]? <;> rfl

@[simp] theorem methodNames_reset (visits : VisitMap) :
    visits.reset.methodNames = visits.methodNames := by
  simp [methodNames, reset, Function.comp_def]

@[simp] theorem className_ofNames (className : String) (names : List String) :
    (ofNames className names).className = className := rfl

@[simp] theorem methodNames_ofNames (className : String) (names : List String) :
    (ofNames className names).methodNames = names := by
  simp [methodNames, ofNames, Function.comp_def]

@[simp] theorem isVisited_ofNames (className : String) (names : List String) (method : Nat) :
    (ofNames className names).isVisited method = false := by
  simp only [ofNames, isVisited, List.getElem?_toArray, List.getElem?_map]
  cases names[method]? <;> rfl

@[simp] theorem isVisited_reset (visits : VisitMap) (method : Nat) :
    visits.reset.isVisited method = false := by
  simp only [reset, isVisited, Array.getElem?_map]
  cases visits.methods[method]? <;> rfl

theorem isVisited_visit (visits : VisitMap) (method other : Nat) :
    (visits.visit method).isVisited other = true ↔
      (method = other ∧ other < visits.size) ∨ visits.isVisited other = true := by
  simp only [visit, isVisited, size, Array.getElem?_modify]
  by_cases hmethod : method = other
  · by_cases hother : other < visits.methods.size <;> simp [hmethod, hother]
  · simp [hmethod]

@[simp] theorem reset_visit (visits : VisitMap) (method : Nat) :
    (visits.visit method).reset = visits.reset := by
  refine congrArg (VisitMap.mk visits.className) (Array.ext_getElem? fun slot ↦ ?_)
  simp only [visit, Array.getElem?_map, Array.getElem?_modify]
  split_ifs <;> cases visits.methods[slot]? <;> rfl

@[simp] theorem reset_reset (visits : VisitMap) : visits.reset.reset = visits.reset := by
  simp [reset, Function.comp_def]

/-- A method that is not there cannot be visited. -/
theorem visit_of_size_le {visits : VisitMap} {method : Nat} (hmethod : visits.size ≤ method) :
    visits.visit method = visits := by
  refine congrArg (VisitMap.mk visits.className) (Array.ext_getElem? fun slot ↦ ?_)
  rw [Array.getElem?_modify]
  split_ifs with hslot
  · rw [Array.getElem?_eq_none (hslot ▸ hmethod)]
    rfl
  · rfl

end VisitMap

/-- The handle is that of a traced class. -/
def Handle.isTraced : Handle → Bool
  | .traced _ => true
  | .loose _ => false

/-- An operation on visit maps. -/
inductive DiscoveryOp
  | trace (className : String) (methods : List String)
  | create (className : String) (methods : List String)
  | visit (handle : Handle) (method : Nat)
  | take (handle : Handle)
  | endTest (test : String)

namespace DiscoveryOp

def apply : DiscoveryOp → Discovery → Discovery
  | trace className methods, discovery => (discovery.trace className methods).1
  | create className methods, discovery => (discovery.create className methods).1
  | visit handle method, discovery => discovery.visit handle method
  | take handle, discovery => (discovery.take handle).2
  | endTest test, discovery => (discovery.endTest test).2

/-- The operation reports what the map has seen, and clears it. -/
def snapshots : DiscoveryOp → Handle → Bool
  | take taken, handle => taken = handle
  | endTest _, handle => handle.isTraced
  | _, _ => false

/-- What the operation does to a map that is there. -/
def effect (op : DiscoveryOp) (handle : Handle) (visits : VisitMap) : VisitMap :=
  if op.snapshots handle then visits.reset
  else match op with
    | visit visited method => if visited = handle then visits.visit method else visits
    | _ => visits

variable {op : DiscoveryOp} {handle : Handle}

theorem effect_of_snapshots (hsnapshots : op.snapshots handle = true) (visits : VisitMap) :
    op.effect handle visits = visits.reset :=
  if_pos hsnapshots

theorem effect_cases (op : DiscoveryOp) (handle : Handle) (visits : VisitMap) :
    (op.snapshots handle = true ∧ op.effect handle visits = visits.reset) ∨
      (∃ method, op = .visit handle method ∧ op.effect handle visits = visits.visit method) ∨
      (op.snapshots handle = false ∧ (∀ method, op ≠ .visit handle method) ∧
        op.effect handle visits = visits) := by
  by_cases hsnapshots : op.snapshots handle = true
  · exact .inl ⟨hsnapshots, effect_of_snapshots hsnapshots visits⟩
  · have hquiet : op.snapshots handle = false := Bool.eq_false_iff.mpr hsnapshots
    cases op with
    | visit visited method =>
      by_cases hvisited : visited = handle
      · exact .inr (.inl ⟨method, by rw [hvisited], if_pos hvisited⟩)
      · refine .inr (.inr ⟨hquiet, fun other heq ↦ ?_, if_neg hvisited⟩)
        exact hvisited (DiscoveryOp.visit.inj heq).1
    | _ => exact .inr (.inr ⟨hquiet, nofun, if_neg hsnapshots⟩)

/-- No operation changes the methods of a map, or its class. -/
theorem names_effect (op : DiscoveryOp) (handle : Handle) (visits : VisitMap) :
    (op.effect handle visits).className = visits.className ∧
      (op.effect handle visits).methodNames = visits.methodNames := by
  rcases op.effect_cases handle visits with ⟨-, heq⟩ | ⟨method, -, heq⟩ | ⟨-, -, heq⟩ <;> rw [heq]
  · exact ⟨rfl, visits.methodNames_reset⟩
  · exact ⟨rfl, visits.methodNames_visit method⟩
  · exact ⟨rfl, rfl⟩

/-- Cleared, a map does not remember an operation. -/
theorem reset_effect (op : DiscoveryOp) (handle : Handle) (visits : VisitMap) :
    (op.effect handle visits).reset = visits.reset := by
  rcases op.effect_cases handle visits with ⟨-, heq⟩ | ⟨method, -, heq⟩ | ⟨-, -, heq⟩ <;> rw [heq]
  · exact visits.reset_reset
  · exact visits.reset_visit method

/-- A flag is set by a visit of its method, and kept until a snapshot of its map. -/
theorem isVisited_effect (op : DiscoveryOp) (handle : Handle) (visits : VisitMap) (method : Nat) :
    (op.effect handle visits).isVisited method = true ↔
      (op = .visit handle method ∧ method < visits.size) ∨
        (op.snapshots handle = false ∧ visits.isVisited method = true) := by
  rcases op.effect_cases handle visits with
    ⟨hsnapshots, heq⟩ | ⟨other, rfl, heq⟩ | ⟨hquiet, hne, heq⟩
  · have hnotVisit : op ≠ .visit handle method := by
      rintro rfl
      cases hsnapshots
    simp [heq, hsnapshots, hnotVisit]
  · simp [heq, VisitMap.isVisited_visit, snapshots]
  · simp [heq, hquiet, hne method]

end DiscoveryOp

namespace Discovery

variable {discovery other : Discovery} {handle : Handle}

/-- The discovery after operations. -/
def applyAll (ops : List DiscoveryOp) (discovery : Discovery) : Discovery :=
  ops.foldl (fun discovery op ↦ op.apply discovery) discovery

/-- The discovery after a history of operations. -/
def run (ops : List DiscoveryOp) : Discovery := applyAll ops {}

theorem run_append (before after : List DiscoveryOp) :
    run (before ++ after) = applyAll after (run before) :=
  List.foldl_append

theorem run_concat (ops : List DiscoveryOp) (op : DiscoveryOp) :
    run (ops ++ [op]) = op.apply (run ops) :=
  run_append ops [op]

/-! ### Maps through look-ups -/

/-- A discovery is known by its look-ups. -/
theorem eq_of_map?_eq (hmap : ∀ handle, discovery.map? handle = other.map? handle) :
    discovery = other := by
  obtain ⟨traced, loose⟩ := discovery
  obtain ⟨otherTraced, otherLoose⟩ := other
  have htraced : traced = otherTraced :=
    Std.ExtTreeMap.ext_getElem? fun className ↦ hmap (.traced className)
  have hloose : loose = otherLoose := Array.ext_getElem? fun position ↦ hmap (.loose position)
  rw [htraced, hloose]

theorem map?_modify (discovery : Discovery) (changed : Handle) (f : VisitMap → VisitMap)
    (handle : Handle) :
    (discovery.modify changed f).map? handle =
      (discovery.map? handle).map fun visits ↦ if changed = handle then f visits else visits := by
  cases changed with
  | traced className =>
    cases handle with
    | traced otherName =>
      simp only [modify, map?, Std.ExtTreeMap.getElem?_modify, Std.compare_eq_iff_eq,
        Handle.traced.injEq]
      split_ifs with hname
      · rw [hname]
      · rw [Option.map_id']
    | loose position => simp [modify, map?]
  | loose position =>
    cases handle with
    | traced className => simp [modify, map?]
    | loose otherPosition =>
      simp only [modify, map?, Array.getElem?_modify, Handle.loose.injEq]
      split_ifs
      · rfl
      · rw [Option.map_id']

theorem map?_trace (discovery : Discovery) (className : String) (methods : List String)
    (handle : Handle) :
    (discovery.trace className methods).1.map? handle =
      if .traced className = handle then
        some ((discovery.map? handle).getD (.ofNames className methods))
      else discovery.map? handle := by
  cases handle with
  | traced otherName =>
    simp only [trace, map?, Std.ExtTreeMap.getElem?_alter, Std.compare_eq_iff_eq,
      Handle.traced.injEq]
    split_ifs with hname
    · rw [hname]
    · rfl
  | loose position => simp [trace, map?]

theorem map?_create (discovery : Discovery) (className : String) (methods : List String)
    (handle : Handle) :
    (discovery.create className methods).1.map? handle =
      if .loose discovery.loose.size = handle then some (.ofNames className methods)
      else discovery.map? handle := by
  cases handle with
  | traced otherName => simp [create, map?]
  | loose position =>
    simp only [create, map?, Array.getElem?_push, Handle.loose.injEq, eq_comm (a := position)]

theorem map?_loose_size (discovery : Discovery) :
    discovery.map? (.loose discovery.loose.size) = none := by
  simp [map?]

theorem map?_endTest (discovery : Discovery) (test : String) (handle : Handle) :
    (discovery.endTest test).2.map? handle = (discovery.map? handle).map fun visits ↦
      if handle.isTraced then visits.reset else visits := by
  cases handle with
  | traced className => simp [endTest, map?, Handle.isTraced]
  | loose position => simp [endTest, map?, Handle.isTraced]

/-! ### One operation -/

/-- A map that is there stays under its handle. -/
theorem map?_apply_of_some (op : DiscoveryOp) {visits : VisitMap}
    (hvisits : discovery.map? handle = some visits) :
    (op.apply discovery).map? handle = some (op.effect handle visits) := by
  cases op with
  | trace className methods =>
    rw [DiscoveryOp.apply, map?_trace, hvisits, Option.getD_some, ite_self]
    rfl
  | create className methods =>
    have hne : .loose discovery.loose.size ≠ handle := by
      rintro rfl
      rw [map?_loose_size] at hvisits
      cases hvisits
    rw [DiscoveryOp.apply, map?_create, if_neg hne, hvisits]
    rfl
  | visit visited method =>
    rw [DiscoveryOp.apply, Discovery.visit, map?_modify, hvisits]
    rfl
  | take taken =>
    rw [DiscoveryOp.apply, take, reset, map?_modify, hvisits]
    simp [DiscoveryOp.effect, DiscoveryOp.snapshots]
  | endTest test =>
    rw [DiscoveryOp.apply, map?_endTest, hvisits]
    rfl

/-- A map that was not there was made by the operation, and nothing in it was visited. -/
theorem map?_apply_of_none (op : DiscoveryOp) (hnone : discovery.map? handle = none) :
    (op.apply discovery).map? handle = match op with
      | .trace className methods =>
        if .traced className = handle then some (.ofNames className methods) else none
      | .create className methods =>
        if .loose discovery.loose.size = handle then some (.ofNames className methods) else none
      | _ => none := by
  cases op with
  | trace className methods =>
    rw [DiscoveryOp.apply, map?_trace, hnone]
    rfl
  | create className methods => rw [DiscoveryOp.apply, map?_create, hnone]
  | visit visited method =>
    rw [DiscoveryOp.apply, Discovery.visit, map?_modify, hnone]
    rfl
  | take taken =>
    rw [DiscoveryOp.apply, take, reset, map?_modify, hnone]
    rfl
  | endTest test =>
    rw [DiscoveryOp.apply, map?_endTest, hnone]
    rfl

/-- A map is under its handle for good, with its class and its methods. -/
theorem map?_applyAll_of_some (ops : List DiscoveryOp) {visits : VisitMap}
    (hvisits : discovery.map? handle = some visits) :
    ∃ later, (applyAll ops discovery).map? handle = some later ∧
      later.className = visits.className ∧ later.methodNames = visits.methodNames := by
  induction ops generalizing discovery visits with
  | nil => exact ⟨visits, hvisits, rfl, rfl⟩
  | cons op rest ih =>
    obtain ⟨later, hlater, hclass, hmethods⟩ := ih (map?_apply_of_some op hvisits)
    obtain ⟨hfirstClass, hfirstMethods⟩ := op.names_effect handle visits
    exact ⟨later, hlater, hclass.trans hfirstClass, hmethods.trans hfirstMethods⟩

/-! ### The maps of traced classes -/

/-- The methods that an operation traces a class with. -/
def tracedMethods? (className : String) : DiscoveryOp → Option (List String)
  | .trace traced methods => if traced = className then some methods else none
  | _ => none

/-- The methods that a class was first traced with. -/
def firstTrace? (ops : List DiscoveryOp) (className : String) : Option (List String) :=
  ops.findSome? (tracedMethods? className)

theorem map?_apply_traced_of_none (op : DiscoveryOp) {className : String}
    (hnone : discovery.map? (.traced className) = none) :
    (op.apply discovery).map? (.traced className) =
      (tracedMethods? className op).map (.ofNames className) := by
  rw [map?_apply_of_none op hnone]
  cases op with
  | trace traced methods =>
    simp only [tracedMethods?, Handle.traced.injEq]
    split_ifs with hname
    · rw [hname]
      rfl
    · rfl
  | create traced methods => simp [tracedMethods?]
  | _ => rfl

/-- A class has the map of its first trace, whatever came later. -/
theorem map?_run_traced (ops : List DiscoveryOp) (className : String) :
    ((run ops).map? (.traced className)).map (fun visits ↦ (visits.className, visits.methodNames)) =
      (firstTrace? ops className).map fun methods ↦ (className, methods) := by
  induction ops using List.reverseRecOn with
  | nil => simp [run, applyAll, map?, firstTrace?]
  | append_singleton ops op ih =>
    rw [run_concat, firstTrace?, List.findSome?_append]
    rw [firstTrace?] at ih
    cases hvisits : (run ops).map? (.traced className) with
    | some visits =>
      rw [hvisits] at ih
      obtain ⟨hclass, hmethods⟩ := op.names_effect (.traced className) visits
      rw [map?_apply_of_some op hvisits, Option.map_some, hclass, hmethods]
      cases hfirst : ops.findSome? (tracedMethods? className) with
      | some methods => rw [hfirst] at ih; exact ih
      | none => rw [hfirst] at ih; cases ih
    | none =>
      rw [hvisits] at ih
      rw [map?_apply_traced_of_none op hvisits, Option.map_eq_none_iff.mp ih.symm, Option.none_or]
      cases hmethods : tracedMethods? className op <;> simp [hmethods]

/-- Tracing a class again changes nothing, whatever the methods. -/
theorem trace_of_map? {className : String} {visits : VisitMap}
    (hvisits : discovery.map? (.traced className) = some visits) (methods : List String) :
    discovery.trace className methods = (discovery, .traced className) := by
  refine Prod.ext (eq_of_map?_eq fun handle ↦ ?_) rfl
  rw [map?_trace]
  split_ifs with hhandle
  · rw [← hhandle, hvisits, Option.getD_some]
  · rfl

end Discovery

end JvmCoverage
