import JvmCoverage.Proofs.Field.Delimited
/-!
# The rounds of a decoder

A count in the input is a claim, and a decoder runs a loop for as many rounds as are claimed. What
bounds the work is that every round takes bytes. To say so of loops that stand inside of each other,
the rounds of a run must be told apart, and the bytes that a round takes itself must be told from
those that the rounds within it take.

`Decoder.Outline` says how a decoder is put together: of fields, checks and loops, in sequence or as
alternatives. It is indexed by the decoder, so no loop of the decoder can be left out of it.
`Outline.rounds` lists the rounds of a run on given bytes, each with the bytes of its own, and
`Outline.Accounts` is what is to be shown of an outline. There is one lemma for each way in which
decoders are put together; the one for loops, `Outline.Accounts.loop`, asks that a round takes a
byte outside of the loops within it.
-/

set_option autoImplicit false
set_option relaxedAutoImplicit false

namespace JvmCoverage

/-! ### Rounds -/

/-- The loops of a report, by what they read one of in a round. -/
inductive Part
  | name
  | store
  | owner
  | record
  | jump
  | switch
  | key
  | arm
  deriving DecidableEq

/-- The report has one thing more for a round. A name that was read before adds nothing, and neither
does an owner. -/
def Part.isHeld : Part → Bool
  | name | owner => false
  | _ => true

/-- A round of a loop. -/
inductive Round
  /-- The round came to its end and took `own` bytes outside of the rounds within it. -/
  | completed (part : Part) (own : Nat)
  /-- The round failed. -/
  | failed (part : Part)
  deriving DecidableEq

namespace Round

def own : Round → Nat
  | completed _ own => own
  | failed _ => 0

def isCompleted : Round → Bool
  | completed _ _ => true
  | failed _ => false

/-- The round was completed and the report has one thing more for it. -/
def isHeld : Round → Bool
  | completed part _ => part.isHeld
  | failed _ => false

/-- The round took a byte of its own, or the run that it belongs to failed. -/
def Pays {α : Type} (outcome : Except Failure α) : Round → Prop
  | completed _ own => 0 < own
  | failed _ => ∃ error, outcome = .error error

theorem Pays.of_failed {α β : Type} {first : Except Failure α} {second : Except Failure β}
    {round : Round} (hpays : round.Pays first)
    (hfailed : ∀ error, first = .error error → second = .error error) : round.Pays second := by
  cases round with
  | completed part own => exact hpays
  | failed part =>
    obtain ⟨error, herror⟩ := hpays
    exact ⟨error, hfailed error herror⟩

/-- The bytes that rounds took of their own. -/
def ownBytes : List Round → Nat
  | [] => 0
  | round :: rest => round.own + ownBytes rest

def completedCount (rounds : List Round) : Nat := rounds.countP isCompleted

def heldCount (rounds : List Round) : Nat := rounds.countP isHeld

@[simp] theorem ownBytes_nil : ownBytes [] = 0 := rfl

@[simp] theorem ownBytes_cons (round : Round) (rounds : List Round) :
    ownBytes (round :: rounds) = round.own + ownBytes rounds := rfl

@[simp] theorem ownBytes_append (first second : List Round) :
    ownBytes (first ++ second) = ownBytes first + ownBytes second := by
  induction first with
  | nil => exact (Nat.zero_add _).symm
  | cons round rest ih => rw [List.cons_append, ownBytes_cons, ownBytes_cons, ih, Nat.add_assoc]

@[simp] theorem heldCount_nil : heldCount [] = 0 := rfl

@[simp] theorem heldCount_cons (round : Round) (rounds : List Round) :
    heldCount (round :: rounds) = round.isHeld.toNat + heldCount rounds := by
  cases hheld : round.isHeld <;> simp [heldCount, hheld, Nat.add_comm]

@[simp] theorem heldCount_append (first second : List Round) :
    heldCount (first ++ second) = heldCount first + heldCount second :=
  List.countP_append

theorem heldCount_le_completedCount (rounds : List Round) :
    heldCount rounds ≤ completedCount rounds := by
  refine List.countP_mono_left fun round _ hheld ↦ ?_
  cases round with
  | completed part own => rfl
  | failed part => cases hheld

/-- Rounds that each took a byte of their own are no more than the bytes. -/
theorem completedCount_le_ownBytes {α : Type} {outcome : Except Failure α} {rounds : List Round}
    (hpays : ∀ round ∈ rounds, round.Pays outcome) : completedCount rounds ≤ ownBytes rounds := by
  induction rounds with
  | nil => exact Nat.le_refl 0
  | cons round rest ih =>
    have hrest := ih fun other hother ↦ hpays other (List.mem_cons_of_mem round hother)
    have hround := hpays round List.mem_cons_self
    cases round with
    | completed part own =>
      change 0 < own at hround
      simp only [completedCount, List.countP_cons, isCompleted, ownBytes_cons, Round.own] at hrest ⊢
      simp only [if_true]
      omega
    | failed part =>
      simpa [completedCount, isCompleted, Round.own] using hrest

end Round

namespace Decoder

open Round

variable {α β σ : Type}

/-! ### Outlines -/

/-- The decoder reads one field. -/
inductive IsField : {α : Type} → Decoder α → Prop
  | byte : IsField Decoder.byte
  | int : IsField Decoder.int
  | signed : IsField Decoder.signed
  | text : IsField Decoder.text

/-- A decoder that refuses the empty input takes a byte of whatever it accepts. -/
theorem SelfDelimiting.length_lt {decoder : Decoder α} (hdecoder : SelfDelimiting decoder)
    {error : Failure} (hempty : decoder [] = .error error) {bytes rest : List UInt8} {value : α}
    (hrun : decoder bytes = .ok (value, rest)) : rest.length < bytes.length := by
  obtain ⟨taken, rfl, htaken⟩ := hdecoder hrun
  cases taken with
  | nil => cases hempty.symm.trans (htaken.append [])
  | cons first taken =>
    rw [List.length_append, List.length_cons]
    omega

theorem IsField.length_lt {decoder : Decoder α} (hfield : IsField decoder)
    {bytes rest : List UInt8} {value : α} (hrun : decoder bytes = .ok (value, rest)) :
    rest.length < bytes.length := by
  cases hfield with
  | byte => exact selfDelimiting_byte.length_lt rfl hrun
  | int => exact selfDelimiting_int.length_lt rfl hrun
  | signed => exact selfDelimiting_signed.length_lt rfl hrun
  | text => exact selfDelimiting_text.length_lt rfl hrun

/-- How a decoder is put together. -/
inductive Outline : {α : Type} → Decoder α → Type 1
  | pure {α : Type} (value : α) : Outline (Pure.pure value : Decoder α)
  | fail {α : Type} (error : Failure) : Outline (Decoder.fail error : Decoder α)
  /-- A check of what was read, which takes nothing. -/
  | check {α : Type} (result : Except Failure α) : Outline (StateT.lift result : Decoder α)
  | field {α : Type} {decoder : Decoder α} (hfield : IsField decoder) : Outline decoder
  | bind {α β : Type} {decoder : Decoder α} {next : α → Decoder β} (first : Outline decoder)
    (second : ∀ value, Outline (next value)) : Outline (decoder >>= next)
  | branch {α : Type} {condition : Prop} [Decidable condition] {yes no : Decoder α}
    (first : Outline yes) (second : Outline no) : Outline (if condition then yes else no)
  /-- A loop that carries a state through a number of rounds. -/
  | loop {σ : Type} {step : σ → Decoder σ} {length : Nat} {state : σ} (part : Part)
    (body : ∀ state, Outline (step state)) : Outline (Decoder.iterate step length state)

namespace Outline

/-- The rounds of a loop, each in front of the rounds within it. What a round took of its own is
what it took less what they took. -/
def loopRounds (part : Part) (step : σ → Decoder σ) (within : σ → List UInt8 → List Round) :
    Nat → σ → List UInt8 → List Round
  | 0, _, _ => []
  | length + 1, state, bytes =>
    match step state bytes with
    | .ok (next, rest) =>
      .completed part (bytes.length - rest.length - ownBytes (within state bytes)) ::
        (within state bytes ++ loopRounds part step within length next rest)
    | .error _ => .failed part :: within state bytes

/-- The rounds of all loops in a run, in the order in which they begin. -/
def rounds : {α : Type} → {decoder : Decoder α} → Outline decoder → List UInt8 → List Round
  | _, _, @bind _ _ decoder _ first second, bytes =>
    first.rounds bytes ++
      match decoder bytes with
      | .ok (value, rest) => (second value).rounds rest
      | .error _ => []
  | _, _, @branch _ condition _ _ _ first second, bytes =>
    if condition then first.rounds bytes else second.rounds bytes
  | _, _, @loop _ step length state part body, bytes =>
    loopRounds part step (fun state ↦ (body state).rounds) length state bytes
  | _, _, _, _ => []

section Rounds

variable {bytes rest : List UInt8} {error : Failure}

theorem rounds_bind_of_ok {decoder : Decoder α} {next : α → Decoder β} {first : Outline decoder}
    {second : ∀ value, Outline (next value)} {value : α}
    (hfirst : decoder bytes = .ok (value, rest)) :
    (bind first second).rounds bytes = first.rounds bytes ++ (second value).rounds rest := by
  simp only [rounds, hfirst]

theorem rounds_bind_of_error {decoder : Decoder α} {next : α → Decoder β} {first : Outline decoder}
    {second : ∀ value, Outline (next value)} (hfirst : decoder bytes = .error error) :
    (bind first second).rounds bytes = first.rounds bytes := by
  simp only [rounds, hfirst, List.append_nil]

variable {step : σ → Decoder σ} {part : Part} {body : ∀ state, Outline (step state)} {length : Nat}
  {state next : σ}

theorem rounds_loop_succ_of_ok (hstep : step state bytes = .ok (next, rest)) :
    (loop part body : Outline (iterate step (length + 1) state)).rounds bytes =
      .completed part (bytes.length - rest.length - ownBytes ((body state).rounds bytes)) ::
        ((body state).rounds bytes ++
          (loop part body : Outline (iterate step length next)).rounds rest) := by
  simp only [rounds, loopRounds, hstep]

theorem rounds_loop_succ_of_error (hstep : step state bytes = .error error) :
    (loop part body : Outline (iterate step (length + 1) state)).rounds bytes =
      .failed part :: (body state).rounds bytes := by
  simp only [rounds, loopRounds, hstep]

end Rounds

/-! ### The account of a run -/

/-- Every round of a run takes a byte of its own, or the run fails. A run that succeeds takes at
least `spent` bytes outside of loops, and one thing is held for each of the rounds that are
completed: `before` things when the run begins, and `size` of the value when it ends. -/
structure Accounts {decoder : Decoder α} (outline : Outline decoder) (spent : Nat)
    (size : α → Nat) (before : Nat) : Prop where
  taken : ∀ {bytes value rest}, decoder bytes = .ok (value, rest) →
    ownBytes (outline.rounds bytes) + spent + rest.length ≤ bytes.length
  held : ∀ {bytes value rest}, decoder bytes = .ok (value, rest) →
    heldCount (outline.rounds bytes) + before = size value
  pays : ∀ bytes, ∀ round ∈ outline.rounds bytes, round.Pays (decoder bytes)
  bounded : ∀ bytes, ownBytes (outline.rounds bytes) ≤ bytes.length

namespace Accounts

variable {decoder : Decoder α} {outline : Outline decoder} {spent before : Nat} {size : α → Nat}

/-- Less may be said of the bytes. -/
theorem weaken (haccounts : outline.Accounts spent size before) {less : Nat}
    (hless : less ≤ spent) : outline.Accounts less size before where
  taken hrun := by
    have htaken := haccounts.taken hrun
    omega
  held := haccounts.held
  pays := haccounts.pays
  bounded := haccounts.bounded

/-- What is held besides stays held. -/
theorem frame (haccounts : outline.Accounts spent size before) (more : Nat) :
    outline.Accounts spent (fun value ↦ more + size value) (more + before) where
  taken := haccounts.taken
  held hrun := by
    have hheld := haccounts.held hrun
    omega
  pays := haccounts.pays
  bounded := haccounts.bounded

theorem of_eq {other : Decoder α} {second : Outline other}
    (haccounts : outline.Accounts spent size before) (hdecoder : other = decoder)
    (hrounds : second.rounds = outline.rounds) : second.Accounts spent size before := by
  subst hdecoder
  obtain ⟨htaken, hheld, hpays, hbounded⟩ := haccounts
  rw [← hrounds] at htaken hheld hpays hbounded
  exact ⟨htaken, hheld, hpays, hbounded⟩

theorem pure {value : α} (hsize : before = size value) :
    (Outline.pure value).Accounts 0 size before where
  taken hrun := by
    obtain ⟨-, rfl⟩ := pure_eq_ok_iff.mp hrun
    simp [rounds]
  held hrun := by
    obtain ⟨rfl, -⟩ := pure_eq_ok_iff.mp hrun
    simpa [rounds] using hsize
  pays := nofun
  bounded _ := Nat.zero_le _

theorem fail (error : Failure) (spent : Nat) (size : α → Nat) (before : Nat) :
    (Outline.fail error : Outline (Decoder.fail error : Decoder α)).Accounts spent size before where
  taken hrun := nomatch hrun
  held hrun := nomatch hrun
  pays := nofun
  bounded _ := Nat.zero_le _

theorem check {result : Except Failure α}
    (hsize : ∀ value, result = .ok value → before = size value) :
    (Outline.check result).Accounts 0 size before := by
  cases result with
  | error error =>
    exact {
      taken := fun hrun ↦ nomatch hrun
      held := fun hrun ↦ nomatch hrun
      pays := nofun
      bounded := fun _ ↦ Nat.zero_le _ }
  | ok value =>
    have hpure := Accounts.pure (hsize value rfl)
    exact { hpure with }

theorem field (hfield : IsField decoder) (before : Nat) :
    (Outline.field hfield).Accounts 1 (fun _ ↦ before) before where
  taken hrun := by
    have hlt := hfield.length_lt hrun
    simp only [rounds, ownBytes_nil]
    omega
  held _ := Nat.zero_add before
  pays := nofun
  bounded _ := Nat.zero_le _

theorem bind {next : α → Decoder β} {second : ∀ value, Outline (next value)} {later : Nat}
    {result : β → Nat} (hfirst : outline.Accounts spent size before)
    (hsecond : ∀ value, (second value).Accounts later result (size value)) :
    (Outline.bind outline second).Accounts (later + spent) result before where
  taken hrun := by
    obtain ⟨value, middle, hvalue, hnext⟩ := bind_eq_ok_iff.mp hrun
    have hfront := hfirst.taken hvalue
    have hback := (hsecond value).taken hnext
    rw [rounds_bind_of_ok hvalue, ownBytes_append]
    omega
  held hrun := by
    obtain ⟨value, middle, hvalue, hnext⟩ := bind_eq_ok_iff.mp hrun
    have hfront := hfirst.held hvalue
    have hback := (hsecond value).held hnext
    rw [rounds_bind_of_ok hvalue, heldCount_append]
    omega
  pays bytes round hround := by
    cases hvalue : decoder bytes with
    | error error =>
      rw [rounds_bind_of_error hvalue] at hround
      exact (hfirst.pays bytes round hround).of_failed fun _ ↦ bind_of_error
    | ok run =>
      obtain ⟨value, middle⟩ := run
      rw [rounds_bind_of_ok hvalue, List.mem_append] at hround
      rw [bind_of_ok hvalue]
      rcases hround with hround | hround
      · refine (hfirst.pays bytes round hround).of_failed fun error herror ↦ ?_
        cases hvalue.symm.trans herror
      · exact (hsecond value).pays middle round hround
  bounded bytes := by
    cases hvalue : decoder bytes with
    | error error =>
      rw [rounds_bind_of_error hvalue]
      exact hfirst.bounded bytes
    | ok run =>
      obtain ⟨value, middle⟩ := run
      have hfront := hfirst.taken hvalue
      have hback := (hsecond value).bounded middle
      rw [rounds_bind_of_ok hvalue, ownBytes_append]
      omega

theorem branch {condition : Prop} {_ : Decidable condition} {yes no : Decoder α}
    {first : Outline yes} {second : Outline no}
    (hfirst : condition → first.Accounts spent size before)
    (hsecond : ¬ condition → second.Accounts spent size before) :
    (Outline.branch first second : Outline (if condition then yes else no)).Accounts spent size
      before := by
  by_cases hcondition : condition
  · exact (hfirst hcondition).of_eq (if_pos hcondition) (funext fun _ ↦ if_pos hcondition)
  · exact (hsecond hcondition).of_eq (if_neg hcondition) (funext fun _ ↦ if_neg hcondition)

section Loop

variable {step : σ → Decoder σ} {part : Part} {body : ∀ state, Outline (step state)}
  {size : σ → Nat} {length : Nat} {state : σ}

/-- A round in front of the other rounds of a loop. Of its own it takes what its body takes outside
of loops, so it takes a byte when the body does. -/
theorem loop_succ (hspent : 0 < spent)
    (hround : (body state).Accounts spent size (size state + part.isHeld.toNat))
    (hrest : ∀ {bytes next rest}, step state bytes = .ok (next, rest) →
      (Outline.loop part body : Outline (iterate step length next)).Accounts 0 size (size next)) :
    (Outline.loop part body : Outline (iterate step (length + 1) state)).Accounts 0 size
      (size state) where
  taken hrun := by
    obtain ⟨next, middle, hnext, hlast⟩ := iterate_succ_eq_ok_iff.mp hrun
    have htaken := hround.taken hnext
    have hmore := (hrest hnext).taken hlast
    simp only [rounds_loop_succ_of_ok hnext, ownBytes_cons, ownBytes_append, Round.own]
    omega
  held hrun := by
    obtain ⟨next, middle, hnext, hlast⟩ := iterate_succ_eq_ok_iff.mp hrun
    have hheld := hround.held hnext
    have hmore := (hrest hnext).held hlast
    simp only [rounds_loop_succ_of_ok hnext, heldCount_cons, heldCount_append, Round.isHeld]
    omega
  pays bytes round hmem := by
    rw [iterate_succ]
    cases hnext : step state bytes with
    | error error =>
      rw [rounds_loop_succ_of_error hnext, List.mem_cons] at hmem
      rcases hmem with rfl | hmem
      · exact ⟨error, bind_of_error hnext⟩
      · exact (hround.pays bytes round hmem).of_failed fun _ ↦ bind_of_error
    | ok run =>
      obtain ⟨next, middle⟩ := run
      rw [rounds_loop_succ_of_ok hnext, List.mem_cons, List.mem_append] at hmem
      rw [bind_of_ok hnext]
      rcases hmem with rfl | hmem | hmem
      · have htaken := hround.taken hnext
        show 0 < bytes.length - middle.length - ownBytes ((body state).rounds bytes)
        omega
      · refine (hround.pays bytes round hmem).of_failed fun other hother ↦ ?_
        cases hnext.symm.trans hother
      · exact (hrest hnext).pays middle round hmem
  bounded bytes := by
    cases hnext : step state bytes with
    | error error =>
      rw [rounds_loop_succ_of_error hnext, ownBytes_cons, Round.own, Nat.zero_add]
      exact hround.bounded bytes
    | ok run =>
      obtain ⟨next, middle⟩ := run
      have htaken := hround.taken hnext
      have hmore := (hrest hnext).bounded middle
      simp only [rounds_loop_succ_of_ok hnext, ownBytes_cons, ownBytes_append, Round.own]
      omega

/-- A loop whose rounds take a byte of their own. Its states may be known to have a property. -/
theorem loop (property : σ → Prop) (hspent : 0 < spent)
    (hstep : ∀ state, property state → Ensures (step state) property)
    (hbody : ∀ state, property state →
      (body state).Accounts spent size (size state + part.isHeld.toNat))
    (hstate : property state) :
    (Outline.loop part body : Outline (iterate step length state)).Accounts 0 size
      (size state) := by
  induction length generalizing state with
  | zero =>
    have hpure := Accounts.pure (rfl : size state = size state)
    exact { hpure with }
  | succ length ih =>
    exact loop_succ hspent (hbody state hstate) fun hnext ↦ ih (hstep state hstate hnext)

end Loop

end Accounts

end Outline

end Decoder

end JvmCoverage
