import JvmCoverage.Class.Merge
import JvmCoverage.Proofs.Line.Sized
import Mathlib.Data.List.Forall2
/-!
# Merging line records

`LineRecord.shape` is what two records of one line must agree on to be merged, and
`LineRecord.conflict?_eq_none_iff` says that a merge finds nothing to object to exactly when they
do. Records of one shape have the same counters, which a merge adds one by one
(`LineRecord.branchCount_absorb`). A line that only one store has is taken over as it is;
`LineRecord.SumOf` covers both cases.
-/

set_option autoImplicit false
set_option relaxedAutoImplicit false

namespace JvmCoverage

/-- What two records of one line must agree on: the owner, the ids of the jumps, and the ids and
keys of the switches. -/
structure LineShape where
  signature : String
  jumpIds : List UInt32
  switches : List (UInt32 × CaseKeys)
  deriving DecidableEq, Repr

namespace LineRecord

def shape (record : LineRecord) : LineShape where
  signature := record.signature
  jumpIds := record.jumps.toList.map JumpRecord.id
  switches := record.switches.toList.map fun switch ↦ (switch.id, switch.keys)

/-- Two rows agree in what `f` says when their lengths do and no pair at one position differs. -/
theorem map_eq_map_iff_zip {α β : Type} (f : α → β) (first second : List α) :
    first.map f = second.map f ↔
      first.length = second.length ∧ ∀ pair ∈ first.zip second, f pair.1 = f pair.2 := by
  rw [← List.forall₂_eq_eq_eq, List.forall₂_map_left_iff, List.forall₂_map_right_iff,
    List.forall₂_iff_zip, Prod.forall]

theorem jumpFault?_eq_none_iff {ours theirs : LineRecord} :
    jumpFault? ours theirs = none ↔
      ∀ pair ∈ ours.jumps.toList.zip theirs.jumps.toList, pair.1.id = pair.2.id := by
  rw [jumpFault?, List.findSome?_eq_none_iff]
  simp

theorem switchFault?_eq_none_iff {ours theirs : LineRecord} :
    switchFault? ours theirs = none ↔
      ∀ pair ∈ ours.switches.toList.zip theirs.switches.toList,
        (pair.1.id, pair.1.keys) = (pair.2.id, pair.2.keys) := by
  rw [switchFault?, List.findSome?_eq_none_iff]
  simp

theorem conflict?_eq_none_iff {ours theirs : LineRecord} :
    ours.conflict? theirs = none ↔ ours.shape = theirs.shape := by
  have hjumps := map_eq_map_iff_zip JumpRecord.id ours.jumps.toList theirs.jumps.toList
  have hswitches := map_eq_map_iff_zip (fun switch : SwitchRecord ↦ (switch.id, switch.keys))
    ours.switches.toList theirs.switches.toList
  rw [← jumpFault?_eq_none_iff] at hjumps
  rw [← switchFault?_eq_none_iff] at hswitches
  rw [shape, shape, LineShape.mk.injEq, hjumps, hswitches, conflict?, shapeFault?]
  simp only [Array.length_toList]
  by_cases hsignature : ours.signature = theirs.signature
  · by_cases hjumpCount : ours.jumps.size = theirs.jumps.size
    · by_cases hswitchCount : ours.switches.size = theirs.switches.size <;>
        simp [hsignature, hjumpCount, hswitchCount]
    · simp [hsignature, hjumpCount]
  · simp [hsignature]

theorem shapeFault?_eq_none {ours theirs : LineRecord} (hshape : ours.shape = theirs.shape) :
    shapeFault? ours theirs = none := by
  have hsignature : ours.signature = theirs.signature := congrArg LineShape.signature hshape
  have hconflict := conflict?_eq_none_iff.mpr hshape
  rwa [conflict?, if_neg (not_not.mpr hsignature)] at hconflict

theorem shape_absorb (ours theirs : LineRecord) : (ours.absorb theirs).shape = ours.shape := by
  rw [shape, shape, LineShape.mk.injEq]
  refine ⟨rfl, List.ext_getElem? fun slot ↦ ?_, List.ext_getElem? fun slot ↦ ?_⟩
  · simp only [absorb, Array.toList_mapIdx, List.getElem?_map, List.getElem?_mapIdx]
    cases ours.jumps.toList[slot]? with
    | none => rfl
    | some jump => cases theirs.jumps[slot]? <;> rfl
  · simp only [absorb, Array.toList_mapIdx, List.getElem?_map, List.getElem?_mapIdx]
    cases ours.switches.toList[slot]? with
    | none => rfl
    | some switch => cases theirs.switches[slot]? <;> rfl

end LineRecord

/-! ### The counters of a record -/

/-- A counter of a branch, by the position of the branch on its line. -/
inductive BranchCounter
  | taken (jump : Nat)
  | fallen (jump : Nat)
  | unmatched (switch : Nat)
  | arm (switch arm : Nat)

theorem CounterBank.get_addAll {bank other : CounterBank} (hsize : bank.size = other.size)
    (index : Nat) : (bank.addAll other).get index = bank.get index + other.get index := by
  simp only [addAll, get, Array.getElem?_mapIdx]
  cases hslot : bank.slots[index]? with
  | none =>
    have hother : other.slots[index]? = none := by
      rw [Array.getElem?_eq_none_iff] at hslot ⊢
      exact Nat.le_trans (Nat.le_of_eq hsize.symm) hslot
    rw [hother]
    rfl
  | some counter => rfl

theorem CounterBank.ext_get {bank other : CounterBank} (hsize : bank.size = other.size)
    (hget : ∀ index, bank.get index = other.get index) : bank = other := by
  obtain ⟨slots⟩ := bank
  obtain ⟨others⟩ := other
  refine congrArg CounterBank.mk (Array.ext hsize fun index hfirst hsecond ↦ ?_)
  have hcount := hget index
  simp only [get, Array.getElem?_eq_getElem hfirst, Array.getElem?_eq_getElem hsecond,
    Option.getD_some] at hcount
  exact congrArg Counter.mk hcount

namespace LineRecord

/-- What a counter of a branch holds; a branch that the record does not have was never counted. -/
def branchCount (record : LineRecord) : BranchCounter → UInt32
  | .taken jump => record.jumps[jump]?.elim 0 (·.taken.value)
  | .fallen jump => record.jumps[jump]?.elim 0 (·.fallen.value)
  | .unmatched switch => record.switches[switch]?.elim 0 (·.unmatched.value)
  | .arm switch arm => record.switches[switch]?.elim 0 (·.arms.get arm)

theorem branchCount_addHits (record : LineRecord) (count : UInt32) (counter : BranchCounter) :
    (record.addHits count).branchCount counter = record.branchCount counter := by
  cases counter <;> rfl

variable {ours theirs : LineRecord}

theorem jump_cases_of_shape (hshape : ours.shape = theirs.shape) (slot : Nat) :
    (ours.jumps[slot]? = none ∧ theirs.jumps[slot]? = none) ∨
      ∃ our their, ours.jumps[slot]? = some our ∧ theirs.jumps[slot]? = some their ∧
        our.id = their.id := by
  have hids := congrArg (·[slot]?) (congrArg LineShape.jumpIds hshape)
  simp only [shape, List.getElem?_map, Array.getElem?_toList] at hids
  cases hour : ours.jumps[slot]? <;> cases htheir : theirs.jumps[slot]? <;>
    simp_all

theorem switch_cases_of_shape (hshape : ours.shape = theirs.shape) (slot : Nat) :
    (ours.switches[slot]? = none ∧ theirs.switches[slot]? = none) ∨
      ∃ our their, ours.switches[slot]? = some our ∧ theirs.switches[slot]? = some their ∧
        our.id = their.id ∧ our.keys = their.keys := by
  have hids := congrArg (·[slot]?) (congrArg LineShape.switches hshape)
  simp only [shape, List.getElem?_map, Array.getElem?_toList] at hids
  cases hour : ours.switches[slot]? <;> cases htheir : theirs.switches[slot]? <;>
    simp_all

/-- Records of one shape have the same branches, and a switch has the same arms in both. -/
theorem branchCount_absorb (hshape : ours.shape = theirs.shape) (hours : ours.Sized)
    (htheirs : theirs.Sized) (counter : BranchCounter) :
    (ours.absorb theirs).branchCount counter =
      ours.branchCount counter + theirs.branchCount counter := by
  cases counter with
  | taken slot =>
    rcases jump_cases_of_shape hshape slot with ⟨hour, htheir⟩ | ⟨our, their, hour, htheir, -⟩
    · simp [branchCount, absorb, hour, htheir]
    · simp [branchCount, absorb, hour, htheir, JumpRecord.absorb, Counter.add]
  | fallen slot =>
    rcases jump_cases_of_shape hshape slot with ⟨hour, htheir⟩ | ⟨our, their, hour, htheir, -⟩
    · simp [branchCount, absorb, hour, htheir]
    · simp [branchCount, absorb, hour, htheir, JumpRecord.absorb, Counter.add]
  | unmatched slot =>
    rcases switch_cases_of_shape hshape slot with
      ⟨hour, htheir⟩ | ⟨our, their, hour, htheir, -, -⟩
    · simp [branchCount, absorb, hour, htheir]
    · simp [branchCount, absorb, hour, htheir, SwitchRecord.absorb, Counter.add]
  | arm slot arm =>
    rcases switch_cases_of_shape hshape slot with
      ⟨hour, htheir⟩ | ⟨our, their, hour, htheir, -, hkeys⟩
    · simp [branchCount, absorb, hour, htheir]
    · have hsize : our.arms.size = their.arms.size := by
        rw [hours our (Array.mem_of_getElem? hour), htheirs their (Array.mem_of_getElem? htheir),
          hkeys]
      simp [branchCount, absorb, hour, htheir, SwitchRecord.absorb, CounterBank.get_addAll hsize]

/-- A record is known by its line, its shape and its counters. -/
theorem eq_of_counts {first second : LineRecord} (hline : first.line = second.line)
    (hshape : first.shape = second.shape) (hfirst : first.Sized) (hsecond : second.Sized)
    (hhits : first.hits.value = second.hits.value)
    (hbranches : ∀ counter, first.branchCount counter = second.branchCount counter) :
    first = second := by
  have hjumps : first.jumps = second.jumps := by
    refine Array.ext_getElem? fun slot ↦ ?_
    rcases jump_cases_of_shape hshape slot with ⟨hour, htheir⟩ | ⟨our, their, hour, htheir, hid⟩
    · rw [hour, htheir]
    · have htaken := hbranches (.taken slot)
      have hfallen := hbranches (.fallen slot)
      simp only [branchCount, hour, htheir, Option.elim_some] at htaken hfallen
      rw [hour, htheir, Option.some_inj, JumpRecord.mk.injEq]
      exact ⟨hid, congrArg Counter.mk htaken, congrArg Counter.mk hfallen⟩
  have hswitches : first.switches = second.switches := by
    refine Array.ext_getElem? fun slot ↦ ?_
    rcases switch_cases_of_shape hshape slot with
      ⟨hour, htheir⟩ | ⟨our, their, hour, htheir, hid, hkeys⟩
    · rw [hour, htheir]
    · have hunmatched := hbranches (.unmatched slot)
      have harms (arm : Nat) := hbranches (.arm slot arm)
      simp only [branchCount, hour, htheir, Option.elim_some] at hunmatched harms
      have hsize : our.arms.size = their.arms.size := by
        rw [hfirst our (Array.mem_of_getElem? hour), hsecond their (Array.mem_of_getElem? htheir),
          hkeys]
      rw [hour, htheir, Option.some_inj, SwitchRecord.mk.injEq]
      exact ⟨hid, hkeys, congrArg Counter.mk hunmatched, CounterBank.ext_get hsize harms⟩
  obtain ⟨line, signature, hits, jumps, switches⟩ := first
  rw [LineRecord.mk.injEq]
  exact ⟨hline, congrArg LineShape.signature hshape, congrArg Counter.mk hhits, hjumps, hswitches⟩

/-- A record that holds what is counted on a line in two stores, either of which may lack it. -/
structure SumOf (our? their? : Option LineRecord) (sum : LineRecord) : Prop where
  shape_left : ∀ our, our? = some our → sum.shape = our.shape
  shape_right : ∀ their, their? = some their → sum.shape = their.shape
  hits_eq : sum.hits.value = our?.elim 0 (·.hits.value) + their?.elim 0 (·.hits.value)
  branchCount_eq : ∀ counter, sum.branchCount counter =
    our?.elim 0 (·.branchCount counter) + their?.elim 0 (·.branchCount counter)

theorem sumOf_none_left (record : LineRecord) : SumOf none (some record) record where
  shape_left := by rintro _ ⟨⟩
  shape_right := by rintro _ ⟨⟩; rfl
  hits_eq := (UInt32.zero_add _).symm
  branchCount_eq _ := (UInt32.zero_add _).symm

theorem sumOf_none_right (record : LineRecord) : SumOf (some record) none record where
  shape_left := by rintro _ ⟨⟩; rfl
  shape_right := by rintro _ ⟨⟩
  hits_eq := (UInt32.add_zero _).symm
  branchCount_eq _ := (UInt32.add_zero _).symm

theorem sumOf_of_merge {our? their? : Option LineRecord} {sum : LineRecord}
    (hshape : ∀ our their, our? = some our → their? = some their → our.shape = their.shape)
    (hours : ∀ our, our? = some our → our.Sized)
    (htheirs : ∀ their, their? = some their → their.Sized)
    (hmerge : our?.merge absorb their? = some sum) : SumOf our? their? sum := by
  cases our? with
  | none =>
    obtain rfl : their? = some sum := by cases their? <;> exact hmerge
    exact sumOf_none_left sum
  | some our =>
    cases their? with
    | none =>
      obtain rfl : our = sum := Option.some.inj hmerge
      exact sumOf_none_right our
    | some their =>
      obtain rfl : our.absorb their = sum := Option.some.inj hmerge
      have hsame := hshape our their rfl rfl
      exact {
        shape_left := by rintro _ ⟨⟩; exact shape_absorb our their
        shape_right := by rintro _ ⟨⟩; exact (shape_absorb our their).trans hsame
        hits_eq := rfl
        branchCount_eq := branchCount_absorb hsame (hours our rfl) (htheirs their rfl) }

end LineRecord

end JvmCoverage
