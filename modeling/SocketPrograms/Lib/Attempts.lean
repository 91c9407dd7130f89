import Mathlib.Data.List.Basic
import Mathlib.Tactic.Common

/-! Attempts at the entries of a list, in order, until one succeeds; and the uses of a resource
that is taken and released on the way. -/

namespace SocketPrograms.Lib

/-! ### Resources -/

inductive Use where
  | taken
  | released
deriving DecidableEq, Repr

/-- Whether a resource is held behind some uses of it. It is not taken while it is held, nor
released while it is not. -/
def heldAfter : Bool → List Use → Option Bool
  | held, [] => some held
  | false, .taken :: uses => heldAfter true uses
  | true, .released :: uses => heldAfter false uses
  | false, .released :: _ => none
  | true, .taken :: _ => none

theorem heldAfter_append (held : Bool) (first second : List Use) :
    heldAfter held (first ++ second) = (heldAfter held first).bind fun now => heldAfter now second := by
  induction first generalizing held with
  | nil => rfl
  | cons use rest ih =>
    cases held <;> cases use <;> simp [heldAfter, ih]

/-- What is taken is released exactly once before it is taken again, unless it is kept: then
what was taken last is not released. -/
def ReleasedOnce (kept : Bool) (uses : List Use) : Prop :=
  ∀ before after, uses = before ++ .taken :: after →
    (after.takeWhile (· ≠ .taken)).count .released = if kept = true ∧ .taken ∉ after then 0 else 1

theorem releasedOnce_of_heldAfter {kept : Bool} {uses : List Use} (held : heldAfter false uses = some kept) :
    ReleasedOnce kept uses := by
  intro before after split
  rw [split, heldAfter_append, Option.bind_eq_some_iff] at held
  obtain ⟨now, -, later⟩ := held
  cases now with
  | true => cases later
  | false =>
    cases after with
    | nil =>
      have same : kept = true := (Option.some.inj later).symm
      simp [same]
    | cons use rest =>
      cases use with
      | taken => cases later
      | released =>
        cases rest with
        | nil =>
          have same : kept = false := (Option.some.inj later).symm
          simp [same]
        | cons next rest =>
          cases next with
          | taken => simp
          | released => cases later

/-! ### Attempts -/

section Attempts
variable {α β ο σ : Type*}

/-- The result of the first attempt that has one, with the events of the attempts up to it. -/
def firstOf (attempt : α → Option β × List ο) : List α → Option β × List ο
  | [] => (none, [])
  | x :: rest =>
      match (attempt x).1 with
      | some y => (some y, (attempt x).2)
      | none => ((firstOf attempt rest).1, (attempt x).2 ++ (firstOf attempt rest).2)

variable {attempt : α → Option β × List ο} {x : α}

theorem firstOf_of_success {y : β} (success : (attempt x).1 = some y) (rest : List α) :
    firstOf attempt (x :: rest) = (some y, (attempt x).2) := by
  rw [firstOf, success]

theorem firstOf_of_failure (failure : (attempt x).1 = none) (rest : List α) :
    firstOf attempt (x :: rest) = ((firstOf attempt rest).1, (attempt x).2 ++ (firstOf attempt rest).2) := by
  rw [firstOf, failure]

theorem firstOf_result {succeeds : α → Bool} (tells : ∀ x, (attempt x).1.isSome = succeeds x) (xs : List α) :
    (firstOf attempt xs).1 = (xs.find? succeeds).bind fun x => (attempt x).1 := by
  induction xs with
  | nil => rfl
  | cons x rest ih =>
    have test := tells x
    cases result : (attempt x).1 with
    | some y =>
      rw [result] at test
      rw [firstOf_of_success result, List.find?_cons_of_pos test.symm, Option.bind_some, result]
    | none =>
      rw [result] at test
      rw [firstOf_of_failure result, List.find?_cons_of_neg (by simp [← test]), ih]

theorem firstOf_events {succeeds : α → Bool} (tells : ∀ x, (attempt x).1.isSome = succeeds x) (xs : List α) :
    (firstOf attempt xs).2 = (xs.take (xs.findIdx succeeds + 1)).flatMap fun x => (attempt x).2 := by
  induction xs with
  | nil => rfl
  | cons x rest ih =>
    have test := tells x
    rw [List.findIdx_cons, List.take_succ_cons, List.flatMap_cons]
    cases result : (attempt x).1 with
    | some y =>
      rw [result] at test
      rw [firstOf_of_success result, ← test]
      simp
    | none =>
      rw [result] at test
      rw [firstOf_of_failure result, ← test, ih]
      simp

/-- Where a failure leaves no trace in the state, the events have the effect of the first success. -/
theorem firstOf_foldl {succeeds : α → Bool} (tells : ∀ x, (attempt x).1.isSome = succeeds x)
    {apply : σ → ο → σ} {s : σ} (traceless : ∀ x, succeeds x = false → (attempt x).2.foldl apply s = s) (xs : List α) :
    (firstOf attempt xs).2.foldl apply s = (xs.find? succeeds).elim s fun x => (attempt x).2.foldl apply s := by
  induction xs with
  | nil => rfl
  | cons x rest ih =>
    have test := tells x
    cases result : (attempt x).1 with
    | some y =>
      rw [result] at test
      rw [firstOf_of_success result, List.find?_cons_of_pos test.symm, Option.elim_some]
    | none =>
      rw [result] at test
      rw [firstOf_of_failure result, List.find?_cons_of_neg (by simp [← test]), List.foldl_append,
        traceless x test.symm, ih]

theorem firstOf_heldAfter (use : ο → Option Use) (kept : β → Bool)
    (keeps : ∀ x, heldAfter false ((attempt x).2.filterMap use) = some ((attempt x).1.any kept)) (xs : List α) :
    heldAfter false ((firstOf attempt xs).2.filterMap use) = some ((firstOf attempt xs).1.any kept) := by
  induction xs with
  | nil => rfl
  | cons x rest ih =>
    have here := keeps x
    cases result : (attempt x).1 with
    | some y =>
      rw [result] at here
      rw [firstOf_of_success result, here]
    | none =>
      rw [result, Option.any_none] at here
      rw [firstOf_of_failure result, List.filterMap_append, heldAfter_append, here, Option.bind_some, ih]

end Attempts

end SocketPrograms.Lib
