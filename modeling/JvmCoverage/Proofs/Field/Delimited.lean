import JvmCoverage.Proofs.Field.Decoding
/-!
# Decoders that find the end of their input

`Decoder.Takes` says that a decoder takes certain bytes for a value, no matter what follows them,
and that it misses the rest when it is given only a part of them. A decoder is
`Decoder.SelfDelimiting` when it treats whatever it accepts like that. It never looks past what it
takes, and it never settles for less, so the end of a value needs no mark of its own.

Sequencing keeps the property, because a cut falls into the first part or leaves that part whole
(`Decoder.Takes.bind`). Checks that fail keep it as well, since nothing is asked of what a decoder
refuses. Every decoder of a field has the property.
-/

set_option autoImplicit false
set_option relaxedAutoImplicit false

namespace JvmCoverage.Decoder

variable {α β σ : Type}

/-- The decoder takes exactly these bytes for the value: it leaves what follows them, and of a part
of them that is cut short it says that the input ended. -/
structure Takes (decoder : Decoder α) (taken : List UInt8) (value : α) : Prop where
  append : ∀ more, decoder (taken ++ more) = .ok (value, more)
  cut : ∀ kept < taken.length, decoder (taken.take kept) = .error (.field .inputEnded)

/-- What the decoder accepts it takes from the front of the bytes. -/
def SelfDelimiting (decoder : Decoder α) : Prop :=
  ∀ ⦃bytes value rest⦄, decoder bytes = .ok (value, rest) →
    ∃ taken, bytes = taken ++ rest ∧ Takes decoder taken value

/-! ### Putting decoders together -/

theorem bind_of_error {decoder : Decoder α} {next : α → Decoder β} {bytes : List UInt8}
    {error : Failure} (herror : decoder bytes = .error error) :
    (decoder >>= next) bytes = .error error := by
  show (decoder bytes).bind (fun p ↦ next p.1 p.2) = _
  rw [herror]
  rfl

theorem Takes.bind {decoder : Decoder α} {next : α → Decoder β} {front back : List UInt8}
    {first : α} {value : β} (hfirst : Takes decoder front first)
    (hsecond : Takes (next first) back value) : Takes (decoder >>= next) (front ++ back) value where
  append more := by
    rw [List.append_assoc, bind_of_ok (hfirst.append (back ++ more))]
    exact hsecond.append more
  cut kept hkept := by
    rcases Nat.lt_or_ge kept front.length with hfront | hback
    · rw [List.take_append_of_le_length (Nat.le_of_lt hfront)]
      exact bind_of_error (hfirst.cut kept hfront)
    · -- the first decoder has all that it takes
      rw [List.take_append, List.take_of_length_le hback, bind_of_ok (hfirst.append _)]
      refine hsecond.cut (kept - front.length) ?_
      rw [List.length_append] at hkept
      omega

theorem SelfDelimiting.bind {decoder : Decoder α} {next : α → Decoder β}
    (hdecoder : SelfDelimiting decoder) (hnext : ∀ value, SelfDelimiting (next value)) :
    SelfDelimiting (decoder >>= next) := by
  intro bytes value rest hvalue
  obtain ⟨first, middle, hfirst, hsecond⟩ := bind_eq_ok_iff.mp hvalue
  obtain ⟨front, rfl, hfront⟩ := hdecoder hfirst
  obtain ⟨back, rfl, hback⟩ := hnext first hsecond
  exact ⟨front ++ back, (List.append_assoc _ _ _).symm, hfront.bind hback⟩

theorem takes_pure (value : α) : Takes (pure value) [] value where
  append _ := rfl
  cut kept hkept := absurd hkept (Nat.not_lt_zero kept)

theorem selfDelimiting_pure (value : α) : SelfDelimiting (pure value) := by
  intro bytes other rest hother
  obtain ⟨rfl, rfl⟩ := pure_eq_ok_iff.mp hother
  exact ⟨[], rfl, takes_pure value⟩

/-- A decoder that refuses everything. -/
theorem selfDelimiting_fail (error : Failure) : SelfDelimiting (fail error : Decoder α) := by
  intro bytes value rest hvalue
  cases hvalue

/-- A check of what was read takes nothing. -/
theorem selfDelimiting_lift (result : Except Failure α) :
    SelfDelimiting (StateT.lift result : Decoder α) := by
  cases result with
  | error error => exact selfDelimiting_fail error
  | ok value => exact selfDelimiting_pure value

theorem iterate_succ (step : σ → Decoder σ) (rounds : Nat) (state : σ) :
    iterate step (rounds + 1) state = step state >>= iterate step rounds := by
  funext bytes
  cases hstep : step state bytes with
  | error error =>
    rw [bind_of_error hstep]
    simp only [iterate, hstep]
  | ok p =>
    rw [bind_of_ok (show step state bytes = .ok (p.1, p.2) from hstep)]
    simp only [iterate, hstep]

theorem selfDelimiting_iterate {step : σ → Decoder σ} (hstep : ∀ state, SelfDelimiting (step state))
    (rounds : Nat) (state : σ) : SelfDelimiting (iterate step rounds state) := by
  induction rounds generalizing state with
  | zero => exact selfDelimiting_pure state
  | succ rounds ih =>
    rw [iterate_succ]
    exact (hstep state).bind ih

theorem selfDelimiting_collect {item : Decoder α} (hitem : SelfDelimiting item) (rounds : Nat) :
    SelfDelimiting (collect item rounds) :=
  selfDelimiting_iterate (fun _ ↦ hitem.bind fun _ ↦ selfDelimiting_pure _) rounds #[]

/-! ### Fields -/

theorem selfDelimiting_byte : SelfDelimiting byte := by
  intro bytes value rest hvalue
  cases bytes with
  | nil => cases hvalue
  | cons head tail =>
    cases hvalue
    refine ⟨[value], rfl, fun _ ↦ rfl, fun kept hkept ↦ ?_⟩
    obtain rfl : kept = 0 := Nat.lt_one_iff.mp hkept
    rfl

theorem Takes.takeInto_succ {count : Nat} {before result : ByteArray} {first : UInt8}
    {taken : List UInt8} (hrest : Takes (takeInto count (before.push first)) taken result) :
    Takes (takeInto (count + 1) before) (first :: taken) result where
  append := hrest.append
  cut
    | 0, _ => rfl
    | kept + 1, hkept => hrest.cut kept (Nat.lt_of_succ_lt_succ hkept)

theorem selfDelimiting_takeInto (count : Nat) (before : ByteArray) :
    SelfDelimiting (takeInto count before) := by
  induction count generalizing before with
  | zero =>
    have hnothing : takeInto 0 before = pure before := by
      funext bytes
      cases bytes <;> rfl
    rw [hnothing]
    exact selfDelimiting_pure before
  | succ count ih =>
    intro bytes value rest hvalue
    cases bytes with
    | nil => cases hvalue
    | cons first bytes =>
      obtain ⟨taken, rfl, htaken⟩ := ih (before.push first) hvalue
      exact ⟨first :: taken, rfl, htaken.takeInto_succ⟩

theorem selfDelimiting_varint : SelfDelimiting varint := by
  refine selfDelimiting_byte.bind fun lead ↦ ?_
  cases Varint.lead lead with
  | literal number => exact selfDelimiting_pure _
  | payload width => exact (selfDelimiting_takeInto width .empty).bind fun _ ↦ selfDelimiting_pure _
  | wide => exact selfDelimiting_fail _
  | reserved => exact selfDelimiting_fail _

theorem selfDelimiting_int : SelfDelimiting int := by
  refine selfDelimiting_varint.bind fun ⟨number, _⟩ ↦ ?_
  dsimp only
  split
  · exact selfDelimiting_pure _
  · exact selfDelimiting_fail _

theorem selfDelimiting_signed : SelfDelimiting signed := by
  refine selfDelimiting_varint.bind fun ⟨number, _⟩ ↦ ?_
  dsimp only
  split
  · exact selfDelimiting_pure _
  · exact selfDelimiting_fail _

theorem selfDelimiting_text : SelfDelimiting text := by
  refine selfDelimiting_varint.bind fun ⟨length, headerLength⟩ ↦ ?_
  dsimp only
  split
  · exact selfDelimiting_fail _
  · refine (selfDelimiting_takeInto length .empty).bind fun bytes ↦ ?_
    split
    · exact selfDelimiting_pure _
    · exact selfDelimiting_fail _

theorem selfDelimiting_count : SelfDelimiting count :=
  selfDelimiting_int.bind fun _ ↦ selfDelimiting_pure _

end JvmCoverage.Decoder
