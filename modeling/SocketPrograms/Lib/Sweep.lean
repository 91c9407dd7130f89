import Mathlib.Data.List.Perm.Basic
import Mathlib.Data.List.Nodup
import Mathlib.Tactic.Common

/-! Removal from an array by moving the last entry into the gap, and a forward sweep that
removes in this way while it advances. The sweep passes over the entry it has just moved
in, so what it visits depends on how many removals came before. -/

namespace SocketPrograms.Lib.Sweep
variable {α : Type*}

def swapRemove (xs : List α) (i : Nat) : List α :=
  match xs.getLast? with
  | none => []
  | some last => (xs.set i last).dropLast

@[simp] theorem swapRemove_nil (i : Nat) : swapRemove ([] : List α) i = [] := rfl

theorem swapRemove_concat (xs : List α) (last : α) (i : Nat) :
    swapRemove (xs ++ [last]) i = xs.set i last := by
  rcases Nat.lt_trichotomy i xs.length with inside | atEnd | beyond
  · simp [swapRemove, inside]
  · simp [swapRemove, atEnd, List.set_eq_of_length_le]
  · have short : (xs ++ [last]).length ≤ i := by simp; omega
    simp [swapRemove, List.set_eq_of_length_le short, List.set_eq_of_length_le (Nat.le_of_lt beyond)]

theorem getElem?_swapRemove_ne (xs : List α) (i j : Nat) (other : j ≠ i) (bound : j < xs.length - 1) :
    (swapRemove xs i)[j]? = xs[j]? := by
  rcases List.eq_nil_or_concat' xs with rfl | ⟨front, last, rfl⟩
  · rfl
  · simp only [List.length_append, List.length_singleton, Nat.add_sub_cancel] at bound
    rw [swapRemove_concat, List.getElem?_set_ne (Ne.symm other), List.getElem?_append_left bound]

theorem getElem?_swapRemove_self (xs : List α) (i : Nat) (bound : i < xs.length - 1) :
    (swapRemove xs i)[i]? = xs[xs.length - 1]? := by
  rcases List.eq_nil_or_concat' xs with rfl | ⟨front, last, rfl⟩
  · simp at bound
  · simp only [List.length_append, List.length_singleton, Nat.add_sub_cancel] at bound ⊢
    rw [swapRemove_concat, List.getElem?_set_self bound, List.getElem?_concat_length]

/-- Up to order, moving the last entry into the gap removes exactly the entry at `i`. -/
theorem swapRemove_perm (xs : List α) (i : Nat) (bound : i < xs.length) :
    (swapRemove xs i).Perm (xs.eraseIdx i) := by
  rcases List.eq_nil_or_concat' xs with rfl | ⟨front, last, rfl⟩
  · simp at bound
  rw [swapRemove_concat]
  rcases Nat.lt_or_ge i front.length with inside | atEnd
  · rw [List.eraseIdx_append_of_lt_length inside, List.set_eq_take_append_cons_drop, if_pos inside,
      List.eraseIdx_eq_take_drop_succ]
    exact List.perm_middle.trans (List.perm_append_singleton last _).symm
  · have same : i = front.length := by
      simp only [List.length_append, List.length_singleton] at bound
      omega
    subst same
    simp [List.eraseIdx_append_of_length_le, List.set_eq_of_length_le]

theorem drop_succ_swapRemove (xs : List α) (i : Nat) (bound : i < xs.length) :
    (swapRemove xs i).drop (i + 1) = (xs.drop (i + 1)).dropLast := by
  rcases List.eq_nil_or_concat' xs with rfl | ⟨front, last, rfl⟩
  · simp at bound
  rw [swapRemove_concat, List.drop_set_of_lt (Nat.lt_succ_self i)]
  rcases Nat.lt_or_ge i front.length with inside | atEnd
  · rw [List.drop_append_of_le_length inside, List.dropLast_concat]
  · rw [List.drop_eq_nil_of_le (by omega), List.drop_eq_nil_of_le (by simp; omega)]
    rfl

/-- The entries a forward sweep visits when `gone` tells which of them it removes on the
way: a removal takes the last entry out of what is still ahead. -/
def sweep (gone : α → Bool) : List α → List α
  | [] => []
  | x :: ahead => x :: sweep gone (if gone x then ahead.dropLast else ahead)
termination_by xs => xs.length
decreasing_by
  split <;> simp only [List.length_dropLast, List.length_cons] <;> omega

@[simp] theorem sweep_nil (gone : α → Bool) : sweep gone [] = [] := by
  rw [sweep]

theorem sweep_cons (gone : α → Bool) (x : α) (ahead : List α) :
    sweep gone (x :: ahead) = x :: sweep gone (if gone x then ahead.dropLast else ahead) := by
  rw [sweep]

/-- The sweep visits a prefix. Position `j` belongs to it exactly when no more entries were
removed before `j` than there are entries after `j`. -/
theorem sweep_eq_take (gone : α → Bool) (xs : List α) :
    ∃ reach, sweep gone xs = xs.take reach ∧
      ∀ j, j < xs.length → (j < reach ↔ j + (xs.take j).countP gone < xs.length) := by
  induction size : xs.length using Nat.strongRecOn generalizing xs with
  | _ n ih =>
    cases xs with
    | nil => exact ⟨0, by simp, by simp [← size]⟩
    | cons x ahead =>
      rw [List.length_cons] at size
      cases removed : gone x with
      | false =>
        obtain ⟨reach, visited, within⟩ := ih ahead.length (by omega) ahead rfl
        refine ⟨reach + 1, by simp [sweep_cons, removed, visited], ?_⟩
        intro j bound
        cases j with
        | zero => simp [← size]
        | succ j =>
          have step := within j (by omega)
          have same : ((x :: ahead).take (j + 1)).countP gone = (ahead.take j).countP gone := by
            simp [removed]
          omega
      | true =>
        obtain ⟨reach, visited, within⟩ := ih (ahead.length - 1) (by omega) ahead.dropLast (by simp)
        refine ⟨min reach (ahead.length - 1) + 1, ?_, ?_⟩
        · rw [sweep_cons, if_pos removed, visited, List.take_succ_cons, List.dropLast_eq_take,
            List.take_take]
        · intro j bound
          cases j with
          | zero => simp [← size]
          | succ j =>
            have same : ((x :: ahead).take (j + 1)).countP gone = (ahead.take j).countP gone + 1 := by
              simp [removed]
            rcases Nat.lt_or_ge j (ahead.length - 1) with inner | last
            · have step := within j inner
              have front : (ahead.dropLast.take j) = ahead.take j := by
                rw [List.dropLast_eq_take, List.take_take, Nat.min_eq_left (by omega)]
              rw [front] at step
              omega
            · omega

end SocketPrograms.Lib.Sweep
