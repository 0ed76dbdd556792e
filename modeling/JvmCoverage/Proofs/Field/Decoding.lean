import JvmCoverage.Field.Decoder
/-!
# Reasoning about decoders

`Decoder.Ensures` says that whatever a decoder accepts has a property. `Decoder.Reads` says that it
reads the encoded form of some fields as a given value and leaves what follows, and
`Decoder.Recovers` says the same of a value that is only known to have a property.
`Decoder.Shadowed` compares a decoder with another one that reads the same bytes into something
else. All of them pass through the ways in which decoders are put together, sequencing and
`Decoder.iterate`.
-/

set_option autoImplicit false
set_option relaxedAutoImplicit false

namespace JvmCoverage

/-- The bytes of fields, one after another. -/
def Field.encodeAll : List Field → Except FieldFault (List UInt8)
  | [] => .ok []
  | field :: rest =>
    match field.encode, encodeAll rest with
    | .ok bytes, .ok more => .ok (bytes ++ more)
    | .error fault, _ => .error fault
    | .ok _, .error fault => .error fault

namespace Field

theorem encodeAll_cons_eq_ok_iff {field : Field} {rest : List Field} {bytes : List UInt8} :
    encodeAll (field :: rest) = .ok bytes ↔
      ∃ front back, field.encode = .ok front ∧ encodeAll rest = .ok back ∧
        front ++ back = bytes := by
  rw [encodeAll]
  cases field.encode <;> cases encodeAll rest <;> simp

theorem encodeAll_append_eq_ok_iff {first second : List Field} {bytes : List UInt8} :
    encodeAll (first ++ second) = .ok bytes ↔
      ∃ front back, encodeAll first = .ok front ∧ encodeAll second = .ok back ∧
        front ++ back = bytes := by
  induction first generalizing bytes with
  | nil => simp [encodeAll]
  | cons field rest ih =>
    rw [List.cons_append, encodeAll_cons_eq_ok_iff]
    simp only [encodeAll_cons_eq_ok_iff, ih]
    constructor
    · rintro ⟨front, _, hfront, ⟨middle, back, hmiddle, hback, rfl⟩, rfl⟩
      exact ⟨front ++ middle, back, ⟨front, middle, hfront, hmiddle, rfl⟩, hback,
        List.append_assoc _ _ _⟩
    · rintro ⟨_, back, ⟨front, middle, hfront, hmiddle, rfl⟩, hback, rfl⟩
      exact ⟨front, middle ++ back, hfront, ⟨middle, back, hmiddle, hback, rfl⟩,
        (List.append_assoc _ _ _).symm⟩

end Field

namespace Decoder

variable {α β σ : Type}

/-! ### Running decoders -/

theorem bind_eq_ok_iff {decoder : Decoder α} {next : α → Decoder β} {bytes rest : List UInt8}
    {value : β} :
    (decoder >>= next) bytes = .ok (value, rest) ↔
      ∃ first middle, decoder bytes = .ok (first, middle) ∧
        next first middle = .ok (value, rest) := by
  show (decoder bytes).bind (fun p ↦ next p.1 p.2) = _ ↔ _
  cases decoder bytes with
  | error error => simp [Except.bind]
  | ok p =>
    obtain ⟨first, middle⟩ := p
    simp [Except.bind, and_assoc]

theorem pure_eq_ok_iff {value other : α} {bytes rest : List UInt8} :
    (pure value : Decoder α) bytes = .ok (other, rest) ↔ value = other ∧ bytes = rest := by
  show Except.ok (value, bytes) = _ ↔ _
  simp

/-- A run is known to succeed when something is known of its value. -/
theorem exists_of_map_eq_ok {ε : Type} {f : α → β} {run : Except ε α} {image : β}
    (himage : run.map f = .ok image) : ∃ value, run = .ok value ∧ f value = image := by
  cases run with
  | error error => cases himage
  | ok value => exact ⟨value, rfl, Except.ok.inj himage⟩

theorem bind_of_ok {decoder : Decoder α} {next : α → Decoder β} {bytes middle : List UInt8}
    {first : α} (hfirst : decoder bytes = .ok (first, middle)) :
    (decoder >>= next) bytes = next first middle := by
  show (decoder bytes).bind (fun p ↦ next p.1 p.2) = _
  rw [hfirst]
  rfl

theorem iterate_succ_eq_ok_iff {step : σ → Decoder σ} {rounds : Nat} {state last : σ}
    {bytes rest : List UInt8} :
    iterate step (rounds + 1) state bytes = .ok (last, rest) ↔
      ∃ next middle, step state bytes = .ok (next, middle) ∧
        iterate step rounds next middle = .ok (last, rest) := by
  simp only [iterate]
  cases step state bytes with
  | error error => simp
  | ok p =>
    obtain ⟨next, middle⟩ := p
    simp [and_assoc]

/-! ### What decoders guarantee -/

/-- Whatever the decoder accepts has the property. -/
def Ensures (decoder : Decoder α) (property : α → Prop) : Prop :=
  ∀ ⦃bytes value rest⦄, decoder bytes = .ok (value, rest) → property value

theorem ensures_true (decoder : Decoder α) : Ensures decoder fun _ ↦ True := fun _ _ _ _ ↦ trivial

theorem ensures_pure {property : α → Prop} {value : α} (hvalue : property value) :
    Ensures (pure value) property := by
  intro bytes other rest hother
  exact (pure_eq_ok_iff.mp hother).1 ▸ hvalue

theorem ensures_fail (error : Failure) (property : α → Prop) : Ensures (fail error) property := by
  intro bytes value rest hvalue
  cases hvalue

theorem ensures_lift {result : Except Failure α} {property : α → Prop}
    (hresult : ∀ value, result = .ok value → property value) :
    Ensures (StateT.lift result : Decoder α) property := by
  intro bytes value rest hvalue
  cases result with
  | error error => cases hvalue
  | ok other =>
    cases hvalue
    exact hresult _ rfl

theorem ensures_bind {decoder : Decoder α} {next : α → Decoder β} {first : α → Prop}
    {property : β → Prop} (hdecoder : Ensures decoder first)
    (hnext : ∀ value, first value → Ensures (next value) property) :
    Ensures (decoder >>= next) property := by
  intro bytes value rest hvalue
  obtain ⟨middleValue, middle, hfirst, hsecond⟩ := bind_eq_ok_iff.mp hvalue
  exact hnext middleValue (hdecoder hfirst) hsecond

/-- A state that every round carries one step further. -/
theorem ensures_iterate {step : σ → Decoder σ} (property : Nat → σ → Prop)
    (hstep : ∀ round state, property round state → Ensures (step state) (property (round + 1)))
    (rounds round : Nat) {state : σ} (hstate : property round state) :
    Ensures (iterate step rounds state) (property (round + rounds)) := by
  induction rounds generalizing round state with
  | zero => exact ensures_pure hstate
  | succ rounds ih =>
    intro bytes last rest hlast
    obtain ⟨next, middle, hnext, hrest⟩ := iterate_succ_eq_ok_iff.mp hlast
    have hproperty := ih (round + 1) (hstep round state hstate hnext) hrest
    rwa [Nat.add_right_comm] at hproperty

theorem ensures_collect (item : Decoder α) (rounds : Nat) :
    Ensures (collect item rounds) fun items ↦ items.size = rounds := by
  have hpush (round : Nat) (items : Array α) (hsize : items.size = round) :
      Ensures (do pure (items.push (← item))) fun items : Array α ↦ items.size = round + 1 := by
    refine ensures_bind (ensures_true item) fun value _ ↦ ensures_pure ?_
    rw [Array.size_push, hsize]
  have hall := ensures_iterate (fun round (items : Array α) ↦ items.size = round) hpush rounds 0
    Array.size_empty
  rwa [Nat.zero_add] at hall

theorem ensures_count : Ensures count fun length ↦ length < UInt32.size :=
  ensures_bind (ensures_true int) fun number _ ↦ ensures_pure number.toNat_lt

/-! ### Decoders that read the same bytes -/

/-- Whatever the decoder accepts, its shadow accepts as well and takes the same bytes for, and what
the two make of these bytes is related. -/
def Shadowed {τ : Type} (decoder : Decoder α) (shadow : Decoder τ) (related : α → τ → Prop) :
    Prop :=
  ∀ ⦃bytes value rest⦄, decoder bytes = .ok (value, rest) →
    ∃ trace, shadow bytes = .ok (trace, rest) ∧ related value trace

section Shadowed

variable {τ υ : Type}

theorem shadowed_fail (error : Failure) (shadow : Decoder τ) (related : α → τ → Prop) :
    Shadowed (fail error) shadow related := by
  intro bytes value rest hvalue
  cases hvalue

theorem Ensures.shadowed {decoder : Decoder α} {property : α → Prop}
    (hdecoder : Ensures decoder property) :
    Shadowed decoder decoder fun value trace ↦ value = trace ∧ property value :=
  fun _ value _ hvalue ↦ ⟨value, hvalue, rfl, hdecoder hvalue⟩

theorem Shadowed.bind {decoder : Decoder α} {shadow : Decoder τ} {first : α → τ → Prop}
    {next : α → Decoder β} {shadowNext : τ → Decoder υ} {related : β → υ → Prop}
    (hdecoder : Shadowed decoder shadow first)
    (hnext : ∀ value trace, first value trace →
      Shadowed (next value) (shadowNext trace) related) :
    Shadowed (decoder >>= next) (shadow >>= shadowNext) related := by
  intro bytes value rest hvalue
  obtain ⟨middleValue, middle, hfirst, hsecond⟩ := bind_eq_ok_iff.mp hvalue
  obtain ⟨middleTrace, hshadow, hrelated⟩ := hdecoder hfirst
  obtain ⟨trace, htrace, hlast⟩ := hnext middleValue middleTrace hrelated hsecond
  exact ⟨trace, bind_eq_ok_iff.mpr ⟨middleTrace, middle, hshadow, htrace⟩, hlast⟩

/-- Both read the same at first. -/
theorem Ensures.bind_shadowed {decoder : Decoder α} {property : α → Prop} {next : α → Decoder β}
    {shadowNext : α → Decoder υ} {related : β → υ → Prop} (hdecoder : Ensures decoder property)
    (hnext : ∀ value, property value → Shadowed (next value) (shadowNext value) related) :
    Shadowed (decoder >>= next) (decoder >>= shadowNext) related := by
  refine hdecoder.shadowed.bind ?_
  rintro value _ ⟨rfl, hvalue⟩
  exact hnext value hvalue

theorem Shadowed.bind_pure {decoder : Decoder α} {shadow : Decoder τ} {first : α → τ → Prop}
    {f : τ → υ} {related : α → υ → Prop} (hdecoder : Shadowed decoder shadow first)
    (hrelated : ∀ value trace, first value trace → related value (f trace)) :
    Shadowed decoder (shadow >>= fun trace ↦ pure (f trace)) related := by
  intro bytes value rest hvalue
  obtain ⟨trace, htrace, hfirst⟩ := hdecoder hvalue
  exact ⟨f trace, bind_eq_ok_iff.mpr ⟨trace, rest, htrace, rfl⟩, hrelated value trace hfirst⟩

theorem Shadowed.map {decoder : Decoder α} {shadow : Decoder τ} {first : α → τ → Prop}
    {f : α → β} {related : β → τ → Prop} (hdecoder : Shadowed decoder shadow first)
    (hrelated : ∀ value trace, first value trace → related (f value) trace) :
    Shadowed (decoder >>= fun value ↦ pure (f value)) shadow related := by
  intro bytes value rest hvalue
  obtain ⟨middleValue, middle, hfirst, hsecond⟩ := bind_eq_ok_iff.mp hvalue
  obtain ⟨rfl, rfl⟩ := pure_eq_ok_iff.mp hsecond
  obtain ⟨trace, htrace, hmiddle⟩ := hdecoder hfirst
  exact ⟨trace, htrace, hrelated middleValue trace hmiddle⟩

/-- The decoder checks what it read and may refuse it. -/
theorem Shadowed.bind_lift {decoder : Decoder α} {shadow : Decoder τ} {first : α → τ → Prop}
    {check : α → Except Failure β} {related : β → τ → Prop}
    (hdecoder : Shadowed decoder shadow first)
    (hcheck : ∀ value trace checked, first value trace → check value = .ok checked →
      related checked trace) :
    Shadowed (decoder >>= fun value ↦ StateT.lift (check value)) shadow related := by
  intro bytes value rest hvalue
  obtain ⟨middleValue, middle, hfirst, hsecond⟩ := bind_eq_ok_iff.mp hvalue
  obtain ⟨trace, htrace, hrelated⟩ := hdecoder hfirst
  cases hchecked : check middleValue with
  | error error =>
    rw [hchecked] at hsecond
    cases hsecond
  | ok checked =>
    rw [hchecked] at hsecond
    cases hsecond
    exact ⟨trace, htrace, hcheck middleValue trace _ hrelated hchecked⟩

/-- A state that is carried through rounds, and what is read in each of the rounds. -/
theorem shadowed_iterate {step : σ → Decoder σ} {item : Decoder τ} (property : List τ → σ → Prop)
    (hstep : ∀ passed state, property passed state →
      Shadowed (step state) item fun next trace ↦ property (passed ++ [trace]) next)
    (rounds : Nat) {start : σ} (hstart : property [] start) :
    Shadowed (iterate step rounds start) (collect item rounds)
      fun last traces ↦ traces.size = rounds ∧ property traces.toList last := by
  suffices hfrom : ∀ rounds (passed : Array τ) state, property passed.toList state →
      Shadowed (iterate step rounds state)
        (iterate (fun traces ↦ do pure (traces.push (← item))) rounds passed)
        fun last traces ↦ traces.size = passed.size + rounds ∧ property traces.toList last by
    have hall := hfrom rounds #[] start hstart
    simp only [Array.size_empty, Nat.zero_add] at hall
    exact hall
  intro rounds
  induction rounds with
  | zero =>
    intro passed state hstate bytes last rest hlast
    obtain ⟨rfl, rfl⟩ := pure_eq_ok_iff.mp hlast
    exact ⟨passed, rfl, rfl, hstate⟩
  | succ rounds ih =>
    intro passed state hstate bytes last rest hlast
    obtain ⟨next, middle, hnext, hrest⟩ := iterate_succ_eq_ok_iff.mp hlast
    obtain ⟨trace, htrace, hproperty⟩ := hstep passed.toList state hstate hnext
    rw [← Array.toList_push] at hproperty
    obtain ⟨traces, htraces, hsize, hlastProperty⟩ := ih (passed.push trace) next hproperty hrest
    refine ⟨traces, iterate_succ_eq_ok_iff.mpr ⟨passed.push trace, middle, ?_, htraces⟩, ?_,
      hlastProperty⟩
    · exact bind_eq_ok_iff.mpr ⟨trace, middle, htrace, rfl⟩
    · rw [hsize, Array.size_push, Nat.add_right_comm]
      rfl

end Shadowed

/-! ### What decoders read back -/

/-- The decoder reads the encoded form of the fields as the value, and leaves what follows it. -/
def Reads (decoder : Decoder α) (fields : List Field) (value : α) : Prop :=
  ∀ ⦃bytes⦄ rest, Field.encodeAll fields = .ok bytes → decoder (bytes ++ rest) = .ok (value, rest)

theorem reads_pure (value : α) : Reads (pure value) [] value := by
  intro bytes rest hbytes
  cases hbytes
  rfl

theorem Reads.bind {decoder : Decoder α} {next : α → Decoder β} {front back : List Field}
    {first : α} {value : β} (hdecoder : Reads decoder front first)
    (hnext : Reads (next first) back value) : Reads (decoder >>= next) (front ++ back) value := by
  intro bytes rest hbytes
  obtain ⟨start, middle, hstart, hmiddle, rfl⟩ := Field.encodeAll_append_eq_ok_iff.mp hbytes
  rw [List.append_assoc, bind_of_ok (hdecoder _ hstart)]
  exact hnext rest hmiddle

theorem Reads.bind_cons {decoder : Decoder α} {next : α → Decoder β} {field : Field}
    {back : List Field} {first : α} {value : β} (hdecoder : Reads decoder [field] first)
    (hnext : Reads (next first) back value) : Reads (decoder >>= next) (field :: back) value :=
  hdecoder.bind hnext

/-- A round that reads nothing more than its decoder does. -/
theorem Reads.bind_pure {decoder : Decoder α} {f : α → β} {fields : List Field} {first : α}
    (hdecoder : Reads decoder fields first) :
    Reads (decoder >>= fun value ↦ pure (f value)) fields (f first) := by
  have hread : Reads (decoder >>= fun value ↦ pure (f value)) (fields ++ []) (f first) :=
    hdecoder.bind (reads_pure (f first))
  rwa [List.append_nil] at hread

/-- The decoder reads the encoded form of the fields as a value with the property, and leaves what
follows it. -/
def Recovers (decoder : Decoder α) (fields : List Field) (property : α → Prop) : Prop :=
  ∀ ⦃bytes⦄ rest, Field.encodeAll fields = .ok bytes →
    ∃ value, decoder (bytes ++ rest) = .ok (value, rest) ∧ property value

theorem Reads.recovers {decoder : Decoder α} {fields : List Field} {value : α}
    {property : α → Prop} (hdecoder : Reads decoder fields value) (hvalue : property value) :
    Recovers decoder fields property :=
  fun _ rest hbytes ↦ ⟨value, hdecoder rest hbytes, hvalue⟩

theorem Recovers.bind {decoder : Decoder α} {next : α → Decoder β} {front back : List Field}
    {first : α → Prop} {property : β → Prop} (hdecoder : Recovers decoder front first)
    (hnext : ∀ value, first value → Recovers (next value) back property) :
    Recovers (decoder >>= next) (front ++ back) property := by
  intro bytes rest hbytes
  obtain ⟨start, middle, hstart, hmiddle, rfl⟩ := Field.encodeAll_append_eq_ok_iff.mp hbytes
  obtain ⟨value, hvalue, hfirst⟩ := hdecoder (middle ++ rest) hstart
  rw [List.append_assoc, bind_of_ok hvalue]
  exact hnext value hfirst rest hmiddle

theorem Reads.bind_cons_recovers {decoder : Decoder α} {next : α → Decoder β} {field : Field}
    {back : List Field} {first : α} {property : β → Prop} (hdecoder : Reads decoder [field] first)
    (hnext : Recovers (next first) back property) :
    Recovers (decoder >>= next) (field :: back) property := by
  have hfirst : Recovers decoder [field] fun value ↦ value = first := hdecoder.recovers rfl
  refine hfirst.bind ?_
  rintro _ rfl
  exact hnext

/-- A round that checks what its decoder reads. -/
theorem Recovers.bind_lift {decoder : Decoder α} {check : α → Except Failure β}
    {fields : List Field} {first : α → Prop} {property : β → Prop}
    (hdecoder : Recovers decoder fields first)
    (hcheck : ∀ value, first value → ∃ checked, check value = .ok checked ∧ property checked) :
    Recovers (decoder >>= fun value ↦ StateT.lift (check value)) fields property := by
  intro bytes rest hbytes
  obtain ⟨value, hvalue, hfirst⟩ := hdecoder rest hbytes
  obtain ⟨checked, hok, hproperty⟩ := hcheck value hfirst
  refine ⟨checked, ?_, hproperty⟩
  rw [bind_of_ok hvalue, hok]
  rfl

/-- A round for each item, each of which carries the state on by one more item. -/
theorem recovers_iterate {γ : Type} {step : σ → Decoder σ} {fields : γ → List Field}
    (items : List γ) (property : List γ → σ → Prop)
    (hstep : ∀ passed item rest state, items = passed ++ item :: rest → property passed state →
      Recovers (step state) (fields item) (property (passed ++ [item])))
    {start : σ} (hstart : property [] start) :
    Recovers (iterate step items.length start) (items.flatMap fields) (property items) := by
  suffices hfrom : ∀ rest passed state, items = passed ++ rest → property passed state →
      Recovers (iterate step rest.length state) (rest.flatMap fields) (property items) from
    hfrom items [] start rfl hstart
  intro rest
  induction rest with
  | nil =>
    intro passed state hitems hstate
    rw [List.append_nil] at hitems
    exact (reads_pure state).recovers (hitems ▸ hstate)
  | cons item rest ih =>
    intro passed state hitems hstate bytes tail hbytes
    rw [List.flatMap_cons] at hbytes
    obtain ⟨start, middle, hstart, hmiddle, rfl⟩ := Field.encodeAll_append_eq_ok_iff.mp hbytes
    obtain ⟨next, hnext, hpassed⟩ :=
      hstep passed item rest state hitems hstate (middle ++ tail) hstart
    obtain ⟨last, hlast, hproperty⟩ :=
      ih (passed ++ [item]) next (by rw [hitems, List.append_assoc]; rfl) hpassed tail hmiddle
    refine ⟨last, ?_, hproperty⟩
    rw [List.length_cons, iterate_succ_eq_ok_iff, List.append_assoc]
    exact ⟨next, _, hnext, hlast⟩

/-- Rounds whose state is known after each of them. -/
theorem reads_iterate {γ : Type} {step : σ → Decoder σ} {fields : γ → List Field} (items : List γ)
    (state : List γ → σ)
    (hstep : ∀ passed item rest, items = passed ++ item :: rest →
      Reads (step (state passed)) (fields item) (state (passed ++ [item]))) :
    Reads (iterate step items.length (state [])) (items.flatMap fields) (state items) := by
  intro bytes rest hbytes
  have hrounds : Recovers (iterate step items.length (state [])) (items.flatMap fields)
      fun last ↦ last = state items := by
    refine recovers_iterate items (fun passed last ↦ last = state passed) ?_ rfl
    rintro passed item rest _ hitems rfl
    exact (hstep passed item rest hitems).recovers rfl
  obtain ⟨last, hlast, rfl⟩ := hrounds rest hbytes
  exact hlast

theorem reads_collect {item : Decoder α} {fields : α → List Field} (items : List α)
    (hitem : ∀ value ∈ items, Reads item (fields value) value) :
    Reads (collect item items.length) (items.flatMap fields) items.toArray := by
  refine reads_iterate items List.toArray fun passed value rest hitems ↦ ?_
  have hread := (hitem value (by simp [hitems])).bind_pure (f := passed.toArray.push)
  rwa [List.push_toArray] at hread

end Decoder

end JvmCoverage
