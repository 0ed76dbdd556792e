import JvmCoverage.Proofs.Class.Merge
/-!
# The executions that are on record

The executions of a line are counted in two places: in its record, and in sampling mode in the mask
of the class, from where a save moves them into the record and a merge into the record of another
store. `ClassStore.executions` is what both places hold together. `ClassOp.added` says how many
executions an operation adds to them and `ClassOp.discarded` how many it throws away, which only the
opening of a mask does, when it takes the place of one that counted the line.

`ClassStore.balanced_apply` is the balance of every operation: as long as the line keeps its record
and no sum overflows, nothing else is added and nothing else is lost.
-/

set_option autoImplicit false
set_option relaxedAutoImplicit false

namespace JvmCoverage

theorem CounterBank.get_hit (bank : CounterBank) (index other : Nat) :
    (bank.hit index).get other =
      bank.get other + if index = other ∧ other < bank.size then 1 else 0 := by
  unfold CounterBank.get CounterBank.hit CounterBank.size
  rw [Array.getElem?_modify]
  by_cases hindex : index = other
  · by_cases hother : other < bank.slots.size <;> simp [hindex, hother, Counter.hit]
  · simp [hindex]

theorem CounterBank.get_zeros (size index : Nat) : (zeros size).get index = 0 := by
  rw [get, zeros, Array.getElem?_replicate]
  split <;> rfl

/-! ### Changes of a record -/

namespace RecordOp

/-- The executions that a change adds to a record. -/
def added : RecordOp → LineRecord → Nat
  | hit, _ => 1
  | addHits count, _ => count.toNat
  | merge theirs, record =>
    match record.merge theirs with
    | .ok _ => theirs.hits.value.toNat
    | .error _ => 0
  | _, _ => 0

def addedAll : List RecordOp → LineRecord → Nat
  | [], _ => 0
  | edit :: rest, record => edit.added record + addedAll rest (edit.apply record)

theorem hits_apply {edit : RecordOp} {record : LineRecord}
    (hfits : record.hits.value.toNat + edit.added record < UInt32.size) :
    (edit.apply record).hits.value.toNat = record.hits.value.toNat + edit.added record := by
  cases edit with
  | hit => exact toNat_add_of_lt hfits
  | hitJump id taken =>
    simp only [apply, LineRecord.hitJump]
    split <;> rfl
  | hitSwitch id key =>
    simp only [apply, LineRecord.hitSwitch]
    split <;> rfl
  | addHits count => exact toNat_add_of_lt hfits
  | addJump id =>
    simp only [apply, LineRecord.addJump]
    split <;> rfl
  | addSwitch id keys =>
    simp only [apply, LineRecord.addSwitch]
    split <;> rfl
  | dropLastJump => rfl
  | merge theirs =>
    cases hmerge : record.merge theirs with
    | error error => simp [apply, added, hmerge, Except.toOption]
    | ok merged =>
      obtain ⟨-, rfl⟩ := LineRecord.merge_eq_ok_iff.mp hmerge
      simp only [added, hmerge] at hfits ⊢
      simp only [apply, hmerge]
      exact toNat_add_of_lt hfits

theorem hits_applyAll {edits : List RecordOp} {record : LineRecord}
    (hfits : record.hits.value.toNat + addedAll edits record < UInt32.size) :
    (applyAll edits record).hits.value.toNat =
      record.hits.value.toNat + addedAll edits record := by
  induction edits generalizing record with
  | nil => rfl
  | cons edit rest ih =>
    rw [addedAll, ← Nat.add_assoc] at hfits ⊢
    have hfirst := hits_apply (Nat.lt_of_le_of_lt (Nat.le_add_right _ _) hfits)
    rw [← hfirst] at hfits ⊢
    exact ih hfits

end RecordOp

namespace ClassStore

variable {store theirs result : ClassStore} {line : UInt32} {record : LineRecord}

/-! ### The two places -/

/-- The executions of a line that are on record, in its line record and in the mask. -/
def executions (store : ClassStore) (line : UInt32) : Nat :=
  (store.countOf line (·.hits.value)).toNat + (store.maskCount line).toNat

theorem executions_of_some (hrecord : store.line? line = some record) :
    store.executions line = record.hits.value.toNat + (store.maskCount line).toNat := by
  rw [executions, countOf, hrecord, Option.elim_some]

theorem maskCount_congr (hmask : result.mask = store.mask) (line : UInt32) :
    result.maskCount line = store.maskCount line := by
  rw [maskCount, maskCount, hmask]

/-- The mask has a counter for the line. -/
def maskCovers (store : ClassStore) (line : UInt32) : Bool :=
  store.mask.any (line.toNat < ·.size)

theorem maskCount_hitMask (store : ClassStore) (other line : UInt32) :
    (store.hitMask other).maskCount line =
      store.maskCount line + if other = line ∧ store.maskCovers line = true then 1 else 0 := by
  unfold maskCount hitMask maskCovers
  cases store.mask with
  | none => simp
  | some mask => simp [CounterBank.get_hit, UInt32.toNat_inj]

theorem maskCount_openMask (store : ClassStore) (maxLine line : UInt32) :
    (store.openMask maxLine).maskCount line = 0 :=
  CounterBank.get_zeros _ _

/-! ### The balance of a line -/

/-- From `store` to `result` the line kept its record, and its executions but for those that were
added and those that were discarded. -/
structure Balanced (store result : ClassStore) (line : UInt32) (added discarded : Nat) : Prop where
  containsLine : result.containsLine line = true
  executions_eq : result.executions line + discarded = store.executions line + added

theorem Balanced.trans {middle : ClassStore} {added discarded later laterDiscarded : Nat}
    (hfirst : Balanced store middle line added discarded)
    (hsecond : Balanced middle result line later laterDiscarded) :
    Balanced store result line (added + later) (discarded + laterDiscarded) where
  containsLine := hsecond.containsLine
  executions_eq := by
    have hfirst := hfirst.executions_eq
    have hsecond := hsecond.executions_eq
    omega

/-- A step that leaves the mask alone. -/
theorem balanced_of_record {later : LineRecord} {added : Nat}
    (hrecord : store.line? line = some record) (hlater : result.line? line = some later)
    (hmask : result.mask = store.mask)
    (hhits : later.hits.value.toNat = record.hits.value.toNat + added) :
    Balanced store result line added 0 where
  containsLine := by rw [containsLine_eq, hlater, Option.isSome_some]
  executions_eq := by
    rw [executions_of_some hrecord, executions_of_some hlater, maskCount_congr hmask, hhits]
    omega

/-- A step that leaves record and mask alone. -/
theorem balanced_of_same (hrecord : store.line? line = some record)
    (hline : result.line? line = store.line? line) (hmask : result.mask = store.mask) :
    Balanced store result line 0 0 :=
  balanced_of_record hrecord (hline.trans hrecord) hmask rfl

/-- A step that changes the record of some line. -/
theorem balanced_of_edits (edits : List RecordOp) {other : UInt32}
    (hrecord : store.line? line = some record)
    (hline : result.line? line = if line = other then
      (store.line? line).map (RecordOp.applyAll edits) else store.line? line)
    (hmask : result.mask = store.mask)
    (hfits : store.executions line +
      (if line = other then RecordOp.addedAll edits record else 0) < UInt32.size) :
    Balanced store result line (if line = other then RecordOp.addedAll edits record else 0) 0 := by
  rw [executions_of_some hrecord] at hfits
  by_cases hother : line = other
  · rw [if_pos hother] at hline hfits ⊢
    rw [hrecord, Option.map_some] at hline
    exact balanced_of_record hrecord hline hmask (RecordOp.hits_applyAll (by omega))
  · rw [if_neg hother] at hline ⊢
    exact balanced_of_same hrecord hline hmask

/-- An edit of some line that counts no execution. -/
theorem balanced_of_quiet (edit : RecordOp) {other : UInt32} (hquiet : edit.added record = 0)
    (hrecord : store.line? line = some record)
    (hline : result.line? line = if line = other then
      (store.line? line).map edit.apply else store.line? line)
    (hmask : result.mask = store.mask) (hfits : store.executions line < UInt32.size) :
    Balanced store result line 0 0 := by
  have hedits := balanced_of_edits [edit] hrecord hline hmask
  simp only [RecordOp.addedAll, hquiet, ite_self] at hedits
  exact hedits hfits

/-! ### The balance of every kind of operation -/

theorem balanced_ensureLine (hstore : store.WellFormed) (hrecord : store.line? line = some record)
    {other : UInt32} (signature : String) {edits : List RecordOp}
    (hfits : store.executions line +
      (if line = other then RecordOp.addedAll edits record else 0) < UInt32.size) :
    Balanced store ((store.ensureLine other signature).modifyLine other (RecordOp.applyAll edits))
      line (if line = other then RecordOp.addedAll edits record else 0) 0 := by
  refine balanced_of_edits edits hrecord ?_ rfl hfits
  rw [line?_modifyLine, line?_ensureLine hstore]
  by_cases hother : line = other
  · subst hother
    simp [hrecord]
  · simp [hother]

/-- A branch is hit without an execution. -/
theorem balanced_modifyLine (hrecord : store.line? line = some record) (other : UInt32)
    (edit : RecordOp) (hquiet : edit.added record = 0)
    (hfits : store.executions line < UInt32.size) :
    Balanced store (store.modifyLine other edit.apply) line 0 0 :=
  balanced_of_quiet edit hquiet hrecord (line?_modifyLine store other _ line) rfl hfits

/-- Branches are declared and dropped without an execution. -/
theorem balanced_restructureLine (hstore : store.WellFormed)
    (hrecord : store.line? line = some record) (other : UInt32) (edit : RecordOp)
    (hquiet : edit.added record = 0) (hfits : store.executions line < UInt32.size) :
    Balanced store (store.restructureLine other fun record ↦ some (edit.apply record)) line 0 0 :=
  balanced_of_quiet edit hquiet hrecord (line?_restructureLine_some hstore other _ line)
    (store.mask_restructureLine other _) hfits

theorem balanced_removeLine (hstore : store.WellFormed) (hrecord : store.line? line = some record)
    {other : UInt32} (hother : line ≠ other) :
    Balanced store (store.restructureLine other fun _ ↦ none) line 0 0 :=
  balanced_of_same hrecord ((line?_restructureLine hstore other _ line).trans (if_neg hother))
    (store.mask_restructureLine other _)

/-- A mask that is opened takes the place of the one before it. -/
theorem balanced_openMask (hrecord : store.line? line = some record) (maxLine : UInt32) :
    Balanced store (store.openMask maxLine) line 0 (store.maskCount line).toNat := by
  have hopened : (store.openMask maxLine).line? line = some record := hrecord
  refine ⟨by rw [containsLine_eq, hopened, Option.isSome_some], ?_⟩
  rw [executions_of_some hopened, maskCount_openMask, executions_of_some hrecord]
  rfl

/-- A hit in the mask is lost where the mask has no counter for the line. -/
theorem balanced_hitMask (hrecord : store.line? line = some record) {other : UInt32}
    (hfits : store.executions line +
      (if other = line ∧ store.maskCovers line = true then 1 else 0) < UInt32.size) :
    Balanced store (store.hitMask other) line
      (if other = line ∧ store.maskCovers line = true then 1 else 0) 0 := by
  have hcounted : (store.hitMask other).line? line = some record := hrecord
  refine ⟨by rw [containsLine_eq, hcounted, Option.isSome_some], ?_⟩
  rw [executions_of_some hrecord] at hfits
  rw [executions_of_some hcounted, executions_of_some hrecord, maskCount_hitMask, Nat.add_assoc,
    Nat.add_zero]
  split_ifs at hfits ⊢
  · exact congrArg _ (toNat_add_of_lt (by show _ + 1 < _; omega))
  · rw [UInt32.add_zero, Nat.add_zero]

theorem balanced_methodStatus (hrecord : store.line? line = some record) (signature : String) :
    Balanced store (store.methodStatus signature).2 line 0 0 := by
  unfold methodStatus
  split
  · exact balanced_of_same hrecord rfl rfl
  · exact balanced_of_same hrecord rfl rfl

theorem balanced_densify (hstore : store.WellFormed) (hrecord : store.line? line = some record) :
    Balanced store store.densify line 0 0 := by
  have hmask : store.densify.mask = store.mask := by
    unfold densify
    split
    · split <;> rfl
    · rfl
  exact balanced_of_same hrecord (line?_densify hstore line) hmask

theorem balanced_foldMask (hrecord : store.line? line = some record)
    (hfits : store.executions line < UInt32.size) :
    Balanced store store.foldMask line 0 0 := by
  have hfolded : store.foldMask.line? line = some (record.addHits (store.maskCount line)) := by
    rw [line?_foldMask, hrecord, Option.map_some]
  have hempty : store.foldMask.maskCount line = 0 := by
    rw [maskCount, mask_foldMask, Option.elim_none]
  rw [executions_of_some hrecord] at hfits
  refine ⟨by rw [containsLine_eq, hfolded, Option.isSome_some], ?_⟩
  rw [executions_of_some hrecord, executions_of_some hfolded, hempty]
  exact congrArg (· + 0) (toNat_add_of_lt hfits)

/-- A merge adds what is on record in the other store, in either place. -/
theorem balanced_mergeInPlace (hstore : store.WellFormed) (htheirs : theirs.WellFormed)
    (hrecord : store.line? line = some record) (hok : (store.mergeInPlace theirs).2 = .ok ())
    (hfits : store.executions line + theirs.executions line < UInt32.size) :
    Balanced store (store.mergeInPlace theirs).1 line (theirs.executions line) 0 := by
  have hsum := sumOf_mergeInPlace hstore htheirs hok
  have hcontains := hsum.containsLine_eq line
  rw [containsLine_eq store, hrecord, Option.isSome_some, Bool.true_or, containsLine_eq,
    Option.isSome_iff_exists] at hcontains
  obtain ⟨merged, hmerged⟩ := hcontains
  refine balanced_of_record hrecord hmerged hsum.mask_eq ?_
  have hours : store.countOf line (·.hits.value) = record.hits.value := by
    rw [countOf, hrecord, Option.elim_some]
  have hhits := hsum.hits_eq line merged hmerged
  rw [hours] at hhits
  rw [executions_of_some hrecord] at hfits
  unfold executions at hfits ⊢
  rw [hhits, toNat_add_of_lt, toNat_add_of_lt, Nat.add_assoc]
  · omega
  · rw [toNat_add_of_lt] <;> omega

end ClassStore

/-! ### The balance of an operation -/

namespace ClassOp

/-- The executions of a line that an operation adds, where the line has a record. -/
def added (line : UInt32) (store : ClassStore) : ClassOp → Nat
  | ensureLine other _ edits =>
    if line = other then (store.line? line).elim 0 (RecordOp.addedAll edits) else 0
  | hitLine other => if line = other then 1 else 0
  | hitMask other => if other = line ∧ store.maskCovers line = true then 1 else 0
  | merge theirs =>
    match (store.mergeInPlace theirs).2 with
    | .ok () => theirs.executions line
    | .error _ => 0
  | _ => 0

/-- The executions of a line that an operation throws away: those in a mask that is replaced. -/
def discarded (line : UInt32) (store : ClassStore) : ClassOp → Nat
  | openMask _ => (store.maskCount line).toNat
  | _ => 0

end ClassOp

namespace ClassStore

variable {store : ClassStore} {line : UInt32} {record : LineRecord}

/-- An operation that keeps the record of the line adds what it counts, and throws away no more than
the counts of a mask that it replaces. -/
theorem balanced_apply (hstore : store.Reachable) (hrecord : store.line? line = some record)
    (op : ClassOp) (hkept : op ≠ .removeLine line)
    (htheirs : ∀ theirs, op = .merge theirs → theirs.Reachable)
    (hfits : store.executions line + op.added line store < UInt32.size) :
    Balanced store (op.apply store) line (op.added line store) (op.discarded line store) := by
  have hwell := hstore.wellFormed
  cases op with
  | ensureLine other signature edits =>
    simp only [ClassOp.added, hrecord, Option.elim_some] at hfits ⊢
    exact balanced_ensureLine hwell hrecord signature hfits
  | addJump other id => exact balanced_restructureLine hwell hrecord other (.addJump id) rfl hfits
  | addSwitch other id keys =>
    exact balanced_restructureLine hwell hrecord other (.addSwitch id keys) rfl hfits
  | removeLine other => exact balanced_removeLine hwell hrecord fun heq ↦ hkept (heq ▸ rfl)
  | dropLastJump other => exact balanced_restructureLine hwell hrecord other .dropLastJump rfl hfits
  | hitLine other =>
    exact balanced_of_edits [.hit] hrecord (line?_modifyLine store other _ line) rfl hfits
  | hitJump other id taken => exact balanced_modifyLine hrecord other (.hitJump id taken) rfl hfits
  | hitSwitch other id key => exact balanced_modifyLine hrecord other (.hitSwitch id key) rfl hfits
  | openMask maxLine => exact balanced_openMask hrecord maxLine
  | hitMask other => exact balanced_hitMask hrecord hfits
  | merge theirs =>
    have htheirs := htheirs theirs rfl
    simp only [ClassOp.added] at hfits ⊢
    cases houtcome : (store.mergeInPlace theirs).2 with
    | ok =>
      rw [houtcome] at hfits
      exact balanced_mergeInPlace hwell htheirs.wellFormed hrecord houtcome hfits
    | error error =>
      have hsame := mergeInPlace_unchanged hwell htheirs.wellFormed houtcome
      exact balanced_of_same hrecord (congrArg (·.line? line) hsame) (congrArg mask hsame)
  | methodStatus signature => exact balanced_methodStatus hrecord signature
  | save dictionary sink => exact balanced_foldMask hrecord hfits
  | densify => exact balanced_densify hwell hrecord

end ClassStore

end JvmCoverage
