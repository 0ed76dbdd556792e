import JvmCoverage.Filter.Chain
import Mathlib.Data.List.Forall2
/-!
# Filters of a chain run apart

A chain tells all of its filters of every event, and what they call for acts on one context that
they share. Still no filter can tell that there are others. A filter is a state machine over its own
state, its calls give nothing back, and so its state is known from the events alone
(`FilterChain.filters_after`).

Two views make this precise. `IdiomFilter.noting` is a filter that keeps a list of what it was told
of and what it called for, so that the end of a run shows which callbacks there were.
`FilterChain.runOn` is the loop over the filters in which the calls of one filter act on the context
before the next filter is told; its result is that of `FilterChain.deliver`, which collects the
calls first. `FilterChain.filters_run_apart` is the main statement.
-/

set_option autoImplicit false
set_option relaxedAutoImplicit false

namespace JvmCoverage

/-! ### Events and their callbacks -/

/-- What a chain is told of: an instruction, or the end of the method. -/
inductive ChainEvent
  | dispatch (instruction : Instruction)
  | finish

/-- The instruction is of a kind that idioms are made of. -/
def Instruction.InIdioms (instruction : Instruction) : Prop :=
  (∃ line, instruction = .marker line) ∨
    (∃ kind reference slot, instruction = .access kind reference slot) ∨
    (∃ kind target, instruction = .jump kind target) ∨
    (∃ invoked, instruction = .call invoked) ∨ ∃ opcode, instruction = .plain opcode

namespace ChainEvent

def signal : ChainEvent → Signal
  | dispatch instruction => instruction.signal
  | finish => .finish

/-- The callback that an event is for. There is one per kind that idioms are made of, one for the
instructions of all other kinds, and one for the end of the method. -/
inductive IsFor : ChainEvent → Signal → Prop
  | line (number : UInt32) : IsFor (.dispatch (.marker number)) (.line number)
  | access (kind : AccessKind) (reference : Bool) (slot : UInt16) :
    IsFor (.dispatch (.access kind reference slot)) (.access kind reference)
  | jump (kind : JumpKind) (target : UInt32) : IsFor (.dispatch (.jump kind target)) (.jump kind)
  | call (invoked : MethodCall) : IsFor (.dispatch (.call invoked)) (.call invoked)
  | plain (opcode : UInt8) : IsFor (.dispatch (.plain opcode)) (.plain opcode)
  | other (instruction : Instruction) (hkind : ¬ instruction.InIdioms) :
    IsFor (.dispatch instruction) (.other instruction)
  | finish : IsFor .finish .finish

/-- Every event is for exactly one callback. -/
theorem isFor_iff {event : ChainEvent} {signal : Signal} :
    event.IsFor signal ↔ event.signal = signal := by
  constructor
  · intro hfor
    cases hfor with
    | other instruction hkind => cases instruction <;> simp_all [Instruction.InIdioms] <;> rfl
    | _ => rfl
  · rintro rfl
    cases event with
    | finish => exact .finish
    | dispatch instruction =>
      cases instruction with
      | marker line => exact .line line
      | access kind reference slot => exact .access kind reference slot
      | jump kind target => exact .jump kind target
      | call invoked => exact .call invoked
      | plain opcode => exact .plain opcode
      | _ => exact .other _ (by simp [Instruction.InIdioms])

end ChainEvent

variable {κ : Type}

/-! ### One filter -/

namespace IdiomFilter

/-- The state of a filter that was told of signals. -/
def stateAfter (filter : IdiomFilter κ) (signals : List Signal) (state : filter.State) :
    filter.State :=
  signals.foldl (fun state signal ↦ (filter.step state signal).1) state

/-- What a filter is told of, with what it calls for. -/
def transcript (filter : IdiomFilter κ) : List Signal → filter.State → List (Signal × List κ)
  | [], _ => []
  | signal :: rest, state =>
    (signal, (filter.step state signal).2) :: filter.transcript rest (filter.step state signal).1

/-- The filter with a list of what it was told of and what it called for. -/
def noting (filter : IdiomFilter κ) : IdiomFilter κ where
  name := filter.name
  applicable := filter.applicable
  State := filter.State × List (Signal × List κ)
  start := (filter.start, [])
  step noted signal :=
    let (state, calls) := filter.step noted.1 signal
    ((state, noted.2 ++ [(signal, calls)]), calls)

theorem stateAfter_noting (filter : IdiomFilter κ) (signals : List Signal) (state : filter.State)
    (notes : List (Signal × List κ)) :
    filter.noting.stateAfter signals (state, notes) =
      (filter.stateAfter signals state, notes ++ filter.transcript signals state) := by
  induction signals generalizing state notes with
  | nil => exact congrArg (Prod.mk state) (List.append_nil notes).symm
  | cons signal rest ih =>
    let note : Signal × List κ := (signal, (filter.step state signal).2)
    have hrest := ih (filter.step state signal).1 (notes ++ [note])
    rw [List.append_assoc] at hrest
    exact hrest

end IdiomFilter

namespace RunningFilter

/-- The filter after it was told of signals. -/
def after (running : RunningFilter κ) (signals : List Signal) : RunningFilter κ :=
  ⟨running.filter, running.filter.stateAfter signals running.state⟩

/-- The filter with an empty list of notes. -/
def noting (running : RunningFilter κ) : RunningFilter κ :=
  ⟨running.filter.noting, (running.state, [])⟩

theorem after_noting (running : RunningFilter κ) (signals : List Signal) :
    running.noting.after signals = ⟨running.filter.noting,
      (running.filter.stateAfter signals running.state,
        running.filter.transcript signals running.state)⟩ :=
  congrArg (RunningFilter.mk running.filter.noting)
    (running.filter.stateAfter_noting signals running.state [])

end RunningFilter

/-! ### The filters of a chain -/

namespace FilterChain

/-- The chain after events. -/
def after (chain : FilterChain κ) (events : List ChainEvent) : FilterChain κ :=
  events.foldl (fun chain event ↦ (chain.deliver event.signal).1) chain

/-- What the filters call for at `next`, after events. -/
def callsAt (chain : FilterChain κ) (events : List ChainEvent) (next : ChainEvent) : List κ :=
  ((chain.after events).deliver next.signal).2

theorem deliver_eq (chain : FilterChain κ) (signal : Signal) :
    chain.deliver signal = (⟨chain.filters.map fun running ↦ (running.step signal).1⟩,
      chain.filters.flatMap fun running ↦ (running.step signal).2) := by
  simp [deliver, List.flatMap_map, Function.comp_def]

/-- Each filter has run through the signals of the events, whatever the others are. -/
theorem filters_after (chain : FilterChain κ) (events : List ChainEvent) :
    (chain.after events).filters =
      chain.filters.map fun running ↦ running.after (events.map ChainEvent.signal) := by
  induction events generalizing chain with
  | nil => exact (List.map_id chain.filters).symm
  | cons event rest ih =>
    refine (ih (chain.deliver event.signal).1).trans ?_
    rw [deliver_eq, List.map_map]
    rfl

/-- What a chain calls for is what its filters call for, in the order of the chain. -/
theorem callsAt_eq (chain : FilterChain κ) (events : List ChainEvent) (next : ChainEvent) :
    chain.callsAt events next = chain.filters.flatMap fun running ↦
      ((running.after (events.map ChainEvent.signal)).step next.signal).2 := by
  rw [callsAt, deliver_eq, filters_after, List.flatMap_map]

/-! ### A context that is shared -/

section Context

variable {γ : Type} (act : γ → κ → γ)

/-- Tells one filter after the other, each of them on the context as the one before left it. -/
def deliverOn (signal : Signal) :
    List (RunningFilter κ) → γ → List (RunningFilter κ) × γ
  | [], context => ([], context)
  | running :: rest, context =>
    let (stepped, calls) := running.step signal
    let (others, context) := deliverOn signal rest (calls.foldl act context)
    (stepped :: others, context)

/-- Tells the filters of events, one after the other. -/
def runOn (events : List ChainEvent) (filters : List (RunningFilter κ)) (context : γ) :
    List (RunningFilter κ) × γ :=
  events.foldl (fun run event ↦ deliverOn act event.signal run.1 run.2) (filters, context)

/-- It does not matter whether calls act at once or after all filters were told. -/
theorem deliverOn_eq (signal : Signal) (filters : List (RunningFilter κ)) (context : γ) :
    deliverOn act signal filters context =
      (((⟨filters⟩ : FilterChain κ).deliver signal).1.filters,
        ((⟨filters⟩ : FilterChain κ).deliver signal).2.foldl act context) := by
  induction filters generalizing context with
  | nil => rfl
  | cons running rest ih =>
    simp only [deliverOn, ih, deliver_eq, List.map_cons, List.flatMap_cons, List.foldl_append]

theorem runOn_fst (events : List ChainEvent) (filters : List (RunningFilter κ)) (context : γ) :
    (runOn act events filters context).1 = ((⟨filters⟩ : FilterChain κ).after events).filters := by
  induction events generalizing filters context with
  | nil => rfl
  | cons event rest ih =>
    have hstep : runOn act (event :: rest) filters context =
        runOn act rest (deliverOn act event.signal filters context).1
          (deliverOn act event.signal filters context).2 := rfl
    rw [hstep, ih, deliverOn_eq]
    rfl

theorem runOn_snd_concat (events : List ChainEvent) (next : ChainEvent)
    (filters : List (RunningFilter κ)) (context : γ) :
    (runOn act (events ++ [next]) filters context).2 =
      ((⟨filters⟩ : FilterChain κ).callsAt events next).foldl act
        (runOn act events filters context).2 := by
  have hlast : runOn act (events ++ [next]) filters context =
      deliverOn act next.signal (runOn act events filters context).1
        (runOn act events filters context).2 := by
    simp [runOn]
  rw [hlast, deliverOn_eq, runOn_fst]
  rfl

end Context

/-! ### Filters that take part -/

theorem foldl_push (filters : List (IdiomFilter κ)) (chain : FilterChain κ) :
    filters.foldl push chain = ⟨chain.filters ++ filters.map .start⟩ := by
  induction filters generalizing chain with
  | nil => simp
  | cons filter rest ih => simp [ih, push]

/-- The filters of a chain for a method are those that take part in it, started, in their order. -/
theorem filters_forMethod_foldl_push (filters : List (IdiomFilter κ)) (method : MethodInfo) :
    ((filters.foldl push {}).forMethod method).filters =
      (filters.filter (·.applicable method)).map .start := by
  rw [foldl_push, forMethod, List.nil_append, List.filter_map]
  rfl

/-- A chain for a method is built of the filters that take part in it. -/
theorem forMethod_foldl_push (filters : List (IdiomFilter κ)) (method : MethodInfo) :
    (filters.foldl push {}).forMethod method =
      (filters.filter (·.applicable method)).foldl push {} := by
  rw [foldl_push, foldl_push, forMethod, List.nil_append, List.nil_append, List.filter_map]
  rfl

/-! ### Filters run apart -/

/-- The filters of a chain behave as if each of them were alone while the chain is told of
events. -/
structure RunsApart (filters : List (RunningFilter κ)) (events : List ChainEvent) : Prop where
  /-- A filter that takes notes has noted one callback per event, in their order, and it is the one
  that the event is for. It has noted the same calls as alone. -/
  told : ∃ told, List.Forall₂ ChainEvent.IsFor events told ∧
    ∀ (position : Nat) (running : RunningFilter κ), filters[position]? = some running →
      let noted : RunningFilter κ := ⟨running.filter.noting,
        (running.filter.stateAfter told running.state,
          running.filter.transcript told running.state)⟩
      ((⟨filters.map .noting⟩ : FilterChain κ).after events).filters[position]? = some noted ∧
        ((⟨[running.noting]⟩ : FilterChain κ).after events).filters = [noted]
  /-- A filter ends in the state in which it ends alone. -/
  state : ∀ (position : Nat) (running : RunningFilter κ), filters[position]? = some running →
    ∃ ended, ((⟨filters⟩ : FilterChain κ).after events).filters[position]? = some ended ∧
      ((⟨[running]⟩ : FilterChain κ).after events).filters = [ended]
  /-- The calls at any event are those of the filters alone, in the order of the chain. -/
  calls : ∀ next, (⟨filters⟩ : FilterChain κ).callsAt events next =
    filters.flatMap fun running ↦ (⟨[running]⟩ : FilterChain κ).callsAt events next
  /-- A context on which the calls of a filter act before the next filter is told changes no state,
  and the calls at an event act on it in that order. -/
  context : ∀ {γ : Type} (act : γ → κ → γ) (context : γ),
    (runOn act events filters context).1 = ((⟨filters⟩ : FilterChain κ).after events).filters ∧
      ∀ next, (runOn act (events ++ [next]) filters context).2 =
        ((⟨filters⟩ : FilterChain κ).callsAt events next).foldl act
          (runOn act events filters context).2

theorem runsApart (filters : List (RunningFilter κ)) (events : List ChainEvent) :
    RunsApart filters events where
  told := by
    refine ⟨events.map ChainEvent.signal, ?_, fun position running hrunning ↦ ?_⟩
    · rw [List.forall₂_map_right_iff, List.forall₂_same]
      exact fun event _ ↦ ChainEvent.isFor_iff.mpr rfl
    · rw [filters_after, filters_after, List.getElem?_map, List.getElem?_map, hrunning,
        List.map_singleton]
      simp only [Option.map_some, RunningFilter.after_noting, and_self]
  state position running hrunning :=
    ⟨running.after (events.map ChainEvent.signal),
      by rw [filters_after, List.getElem?_map, hrunning]; rfl, filters_after ⟨[running]⟩ events⟩
  calls next := by
    rw [callsAt_eq]
    refine List.flatMap_congr fun running _ ↦ ?_
    rw [callsAt_eq, List.flatMap_singleton]
  context act context :=
    ⟨runOn_fst act events filters context, fun next ↦
      runOn_snd_concat act events next filters context⟩

/-- Whatever the filters of a chain are and whatever it is told of, each filter is told of every
event once and behaves as it does alone, the calls reach the context in the order of the chain, and
the chain for a method holds the filters that take part in it, in their order, and is the chain that
is built of them. -/
theorem filters_run_apart (filters : List (RunningFilter κ)) (events : List ChainEvent)
    (built : List (IdiomFilter κ)) (method : MethodInfo) :
    RunsApart filters events ∧
      ((built.foldl push {}).forMethod method).filters =
        (built.filter (·.applicable method)).map .start ∧
      (built.foldl push {}).forMethod method =
        (built.filter (·.applicable method)).foldl push {} :=
  ⟨runsApart filters events, filters_forMethod_foldl_push built method,
    forMethod_foldl_push built method⟩

end FilterChain

end JvmCoverage
