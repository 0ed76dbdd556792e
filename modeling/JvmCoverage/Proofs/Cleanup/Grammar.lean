import JvmCoverage.Filter.Cleanup
import Mathlib.Computability.RegularExpressions
import Mathlib.Tactic.NoncommRing
/-!
# The grammar of cleanup code

`cleanupCode` is a regular expression over the letters of the cleanup recognizer. It says what the
compiler writes for a `try` statement with resources: the resources are closed one after another
(`closing`), the exception that a `close` call throws is attached to the one that is under way
(`suppressing`), and that one is thrown again or the block is left by a jump.

`accepted_initial` says that the automaton `Stage.next?` accepts exactly this language. Every stage
accepts some language (`Stage.accepted`), and these languages satisfy one equation per stage
(`Stage.accepted_eq_equation`): a word is empty in an accepting stage, or its first letter leads to
a stage that accepts the rest. A loop of the automaton makes such an equation refer to its own left
side, and Arden's rule solves it by a repetition. Solving the equations from the last stages of the
automaton back to the first leaves the grammar.
-/

set_option autoImplicit false
set_option relaxedAutoImplicit false

namespace JvmCoverage.Cleanup

open Computability
open RegularExpression (char)

/-! ### The grammar -/

/-- A part that may be missing. -/
def optional (part : RegularExpression Letter) : RegularExpression Letter := 1 + part

/-- A part that may occur any number of times. -/
def many (part : RegularExpression Letter) : RegularExpression Letter := .star part

/-- One resource: it is loaded, perhaps several times around a null check, and closed. -/
def closeCall : RegularExpression Letter :=
  char .load * many (char .checkNull * char .load) * optional (char .checkNull) * char .close

/-- One resource after another. -/
def closing : RegularExpression Letter := closeCall * many closeCall

/-- The second exception is attached to the first, which is loaded again. -/
def suppressing : RegularExpression Letter :=
  char .store * char .load * char .load * char .addSuppressed * optional (char .goto) *
    char .load * many (char .close * char .load)

/-- What a line of nothing but resource cleanup spells. -/
def cleanupCode : RegularExpression Letter :=
  optional (char .store) * closing *
    many (char .goto * suppressing * char .throw * char .store * closing) *
    (1 + char .goto + char .goto * suppressing * char .throw +
      char .goto * suppressing * char .close * char .goto)

/-! ### The language of a stage -/

namespace Stage

/-- The stage after a word. -/
def read? (stage : Stage) : List Letter → Option Stage
  | [] => some stage
  | letter :: word => (stage.next? letter).bind (·.read? word)

/-- The words that lead from a stage to an accepting one. -/
def accepted (stage : Stage) : Language Letter :=
  {word | (stage.read? word).any isAccepting = true}

end Stage

def Letter.all : List Letter := [.store, .load, .checkNull, .goto, .close, .addSuppressed, .throw]

theorem Letter.mem_all (letter : Letter) : letter ∈ all := by cases letter <;> decide

/-! ### Languages of one-letter steps -/

theorem nil_notMem_mul {first : Language Letter} (hfirst : [] ∉ first) (rest : Language Letter) :
    [] ∉ first * rest := by
  rw [Language.mem_mul]
  rintro ⟨start, hstart, finish, -, hword⟩
  rw [(List.append_eq_nil_iff.mp hword).1] at hstart
  exact hfirst hstart

theorem nil_notMem_letter_mul (letter : Letter) (language : Language Letter) :
    [] ∉ ({[letter]} : Language Letter) * language :=
  nil_notMem_mul (fun hmem ↦ List.cons_ne_nil _ _ (Set.mem_singleton_iff.mp hmem).symm) language

/-- A repetition can be opened before its first round as well as after its last. -/
theorem kstar_mul_mul {first : Language Letter} (hfirst : [] ∉ first) (second : Language Letter) :
    (first * second)∗ * first = first * (second * first)∗ := by
  rw [eq_comm, ← Language.self_eq_mul_add_iff (nil_notMem_mul hfirst second)]
  nth_rewrite 1 [← Language.one_add_self_mul_kstar_eq_kstar]
  noncomm_ring

theorem cons_mem_letter_mul (letter head : Letter) (word : List Letter)
    (language : Language Letter) :
    head :: word ∈ ({[letter]} : Language Letter) * language ↔
      head = letter ∧ word ∈ language := by
  rw [Language.mem_mul]
  constructor
  · rintro ⟨first, hfirst, rest, hrest, hword⟩
    rw [Set.mem_singleton_iff.mp hfirst] at hword
    obtain ⟨rfl, rfl⟩ := List.cons.inj hword
    exact ⟨rfl, hrest⟩
  · rintro ⟨rfl, hword⟩
    exact ⟨[head], rfl, word, hword, rfl⟩

theorem mem_sum (languages : List (Language Letter)) (word : List Letter) :
    word ∈ languages.sum ↔ ∃ language ∈ languages, word ∈ language := by
  induction languages with
  | nil => simp
  | cons language languages ih =>
    rw [List.sum_cons, Language.mem_add, ih]
    simp

theorem nil_notMem_closeCall : [] ∉ closeCall.matches' := by
  rw [closeCall, RegularExpression.matches'_mul, RegularExpression.matches'_mul]
  exact nil_notMem_mul (nil_notMem_mul (nil_notMem_letter_mul _ _) _) _

theorem nil_notMem_closing : [] ∉ closing.matches' :=
  nil_notMem_mul nil_notMem_closeCall _

namespace Stage

theorem nil_mem_accepted (stage : Stage) : [] ∈ stage.accepted ↔ stage.isAccepting = true := Iff.rfl

theorem cons_mem_accepted (stage : Stage) (letter : Letter) (word : List Letter) :
    letter :: word ∈ stage.accepted ↔ word ∈ (stage.next? letter).elim 0 accepted := by
  show ((stage.next? letter).bind (·.read? word)).any isAccepting = true ↔ _
  cases stage.next? letter with
  | none => simp
  | some next => exact Iff.rfl

/-- A word is accepted when it is empty in an accepting stage, or when its first letter leads to a
stage that accepts the others. -/
theorem accepted_eq (stage : Stage) :
    stage.accepted = (if stage.isAccepting then 1 else 0) +
      (Letter.all.map fun letter ↦ {[letter]} * (stage.next? letter).elim 0 accepted).sum := by
  ext word
  rw [Language.mem_add, mem_sum]
  cases word with
  | nil =>
    rw [nil_mem_accepted]
    cases stage.isAccepting <;> simp [nil_notMem_letter_mul]
  | cons head word =>
    rw [cons_mem_accepted]
    cases stage.isAccepting <;> simp [cons_mem_letter_mul, Letter.mem_all, Language.mem_one]

/-- The right side of the equation of a stage, for any languages of the stages. -/
def equation (languages : Stage → Language Letter) : Stage → Language Letter
  | initial => {[.store]} * languages storedPrimary + {[.load]} * languages loadedResource
  | storedPrimary => {[.load]} * languages loadedResource
  | loadedResource => {[.checkNull]} * languages checkedResource + {[.close]} * languages closed
  | checkedResource => {[.load]} * languages loadedResource + {[.close]} * languages closed
  | closed => 1 + ({[.load]} * languages loadedResource + {[.goto]} * languages jumped)
  | jumped => 1 + {[.store]} * languages storedSecondary
  | storedSecondary => {[.load]} * languages loadedPrimary
  | loadedPrimary => {[.load]} * languages loadedSecondary
  | loadedSecondary => {[.addSuppressed]} * languages suppressed
  | suppressed => {[.load]} * languages loadedRethrown + {[.goto]} * languages jumpedToRethrow
  | jumpedToRethrow => {[.load]} * languages loadedRethrown
  | loadedRethrown =>
    {[.close]} * languages closedAfterSuppression + {[.throw]} * languages rethrown
  | rethrown => 1 + {[.store]} * languages storedPrimary
  | closedAfterSuppression =>
    {[.load]} * languages loadedRethrown + {[.goto]} * languages jumpedAfterSuppression
  | jumpedAfterSuppression => 1

/-- The accepted languages solve the equations. -/
theorem accepted_eq_equation (stage : Stage) : stage.accepted = equation accepted stage := by
  rw [accepted_eq]
  cases stage <;> simp [equation, Letter.all, isAccepting, next?]

/-! ### Solving the equations -/

/-- The primary exception is loaded again: resources are closed, and then it is thrown or a jump
leaves the block. -/
theorem accepted_loadedRethrown :
    loadedRethrown.accepted = ({[.close]} * {[.load]})∗ *
      ({[.throw]} * rethrown.accepted + {[.close]} * {[.goto]}) := by
  have hjumped : jumpedAfterSuppression.accepted = 1 :=
    accepted_eq_equation _
  have hclosed : closedAfterSuppression.accepted =
      {[.load]} * loadedRethrown.accepted + {[.goto]} := by
    rw [accepted_eq_equation, equation, hjumped, mul_one]
  have hloaded : loadedRethrown.accepted =
      {[.close]} * closedAfterSuppression.accepted + {[.throw]} * rethrown.accepted :=
    accepted_eq_equation _
  rw [← Language.self_eq_mul_add_iff (nil_notMem_letter_mul _ _)]
  nth_rewrite 1 [hloaded]
  rw [hclosed]
  noncomm_ring

/-- After a close call and its jump the line may end, or go on with the handling of an exception. -/
theorem accepted_jumped :
    jumped.accepted = 1 + suppressing.matches' *
      ({[.throw]} * rethrown.accepted + {[.close]} * {[.goto]}) := by
  have hrethrow : jumpedToRethrow.accepted = {[.load]} * loadedRethrown.accepted :=
    accepted_eq_equation _
  have hsuppressed : suppressed.accepted =
      {[.load]} * loadedRethrown.accepted + {[.goto]} * jumpedToRethrow.accepted :=
    accepted_eq_equation _
  have hsecondary : loadedSecondary.accepted = {[.addSuppressed]} * suppressed.accepted :=
    accepted_eq_equation _
  have hprimary : loadedPrimary.accepted = {[.load]} * loadedSecondary.accepted :=
    accepted_eq_equation _
  have hstored : storedSecondary.accepted = {[.load]} * loadedPrimary.accepted :=
    accepted_eq_equation _
  have hjumped : jumped.accepted = 1 + {[.store]} * storedSecondary.accepted :=
    accepted_eq_equation _
  rw [hjumped, hstored, hprimary, hsecondary, hsuppressed, hrethrow, accepted_loadedRethrown]
  simp only [suppressing, optional, many, RegularExpression.matches'_mul,
    RegularExpression.matches'_add, RegularExpression.matches'_star,
    RegularExpression.matches'_char, RegularExpression.matches'_epsilon]
  noncomm_ring

/-- The resources are closed, each of them perhaps after a null check, and the last `close` call may
be followed by a jump. -/
theorem accepted_storedPrimary :
    storedPrimary.accepted = closing.matches' * (1 + {[.goto]} * jumped.accepted) := by
  have hchecked : checkedResource.accepted =
      {[.load]} * loadedResource.accepted + {[.close]} * closed.accepted :=
    accepted_eq_equation _
  have hresource : loadedResource.accepted =
      {[.checkNull]} * checkedResource.accepted + {[.close]} * closed.accepted :=
    accepted_eq_equation _
  have hclosed : closed.accepted =
      1 + ({[.load]} * loadedResource.accepted + {[.goto]} * jumped.accepted) :=
    accepted_eq_equation _
  have hstored : storedPrimary.accepted = {[.load]} * loadedResource.accepted :=
    accepted_eq_equation _
  have hloop : loadedResource.accepted = ({[.checkNull]} * {[.load]})∗ *
      ((1 + {[.checkNull]}) * {[.close]} * closed.accepted) := by
    rw [← Language.self_eq_mul_add_iff (nil_notMem_letter_mul _ _)]
    nth_rewrite 1 [hresource]
    rw [hchecked]
    noncomm_ring
  have hround : {[.load]} * loadedResource.accepted = closeCall.matches' * closed.accepted := by
    rw [hloop]
    simp only [closeCall, optional, many, RegularExpression.matches'_mul,
      RegularExpression.matches'_add, RegularExpression.matches'_star,
      RegularExpression.matches'_char, RegularExpression.matches'_epsilon]
    noncomm_ring
  have hrounds : closed.accepted = closeCall.matches'∗ * (1 + {[.goto]} * jumped.accepted) := by
    rw [← Language.self_eq_mul_add_iff nil_notMem_closeCall]
    nth_rewrite 1 [hclosed]
    rw [hround]
    abel
  rw [hstored, hround, hrounds, ← mul_assoc]
  rfl

end Stage

/-- The automaton accepts exactly the cleanup code. -/
theorem accepted_initial : Stage.initial.accepted = cleanupCode.matches' := by
  have hstored : Stage.storedPrimary.accepted = {[.load]} * Stage.loadedResource.accepted :=
    Stage.accepted_eq_equation _
  have hinitial : Stage.initial.accepted =
      {[.store]} * Stage.storedPrimary.accepted + {[.load]} * Stage.loadedResource.accepted :=
    Stage.accepted_eq_equation _
  have hrethrown : Stage.rethrown.accepted = 1 + {[.store]} * Stage.storedPrimary.accepted :=
    Stage.accepted_eq_equation _
  have hrounds : Stage.storedPrimary.accepted =
      (closing.matches' * ({[.goto]} * suppressing.matches' * {[.throw]} * {[.store]}))∗ *
        (closing.matches' * (1 + {[.goto]} + {[.goto]} * suppressing.matches' * {[.throw]} +
          {[.goto]} * suppressing.matches' * {[.close]} * {[.goto]})) := by
    rw [← Language.self_eq_mul_add_iff (nil_notMem_mul nil_notMem_closing _)]
    nth_rewrite 1 [Stage.accepted_storedPrimary]
    rw [Stage.accepted_jumped, hrethrown]
    noncomm_ring
  rw [← mul_assoc _ closing.matches', kstar_mul_mul nil_notMem_closing] at hrounds
  rw [hinitial, ← hstored, hrounds]
  simp only [cleanupCode, optional, many, RegularExpression.matches'_mul,
    RegularExpression.matches'_add, RegularExpression.matches'_star,
    RegularExpression.matches'_char, RegularExpression.matches'_epsilon]
  noncomm_ring

end JvmCoverage.Cleanup
