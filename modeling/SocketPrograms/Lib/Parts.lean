import Mathlib.Data.List.Basic
import Mathlib.Algebra.Ring.Nat

/-! A list cut into parts of one size, and what is left behind the last of them. -/

namespace SocketPrograms.Lib
variable {α : Type*} {n : Nat}

def parts (n : Nat) (xs : List α) : List (List α) :=
  (List.range (xs.length / n)).map fun i => (xs.drop (i * n)).take n

def remainder (n : Nat) (xs : List α) : List α := xs.drop (xs.length / n * n)

theorem parts_short {xs : List α} (short : xs.length < n) : parts n xs = [] := by
  simp [parts, Nat.div_eq_of_lt short]

theorem remainder_short {xs : List α} (short : xs.length < n) : remainder n xs = xs := by
  simp [remainder, Nat.div_eq_of_lt short]

section front
variable {front : List α} (size : front.length = n)
include size

theorem drop_front (i : Nat) (xs : List α) : (front ++ xs).drop ((i + 1) * n) = xs.drop (i * n) := by
  have position : (i + 1) * n = front.length + i * n := by rw [size, Nat.succ_mul, Nat.add_comm]
  rw [position, List.drop_length_add_append]

variable (positive : 0 < n)
include positive

theorem length_div_front (xs : List α) : (front ++ xs).length / n = xs.length / n + 1 := by
  rw [List.length_append, size, Nat.add_comm, Nat.add_div_right _ positive]

theorem parts_front (xs : List α) : parts n (front ++ xs) = front :: parts n xs := by
  have first : ((front ++ xs).drop (0 * n)).take n = front := by
    rw [Nat.zero_mul, List.drop_zero, ← size, List.take_left]
  rw [parts, length_div_front size positive, List.range_succ_eq_map, List.map_cons, first, List.map_map, parts]
  congr 1
  apply List.map_congr_left
  intro i _
  exact congrArg (List.take n) (drop_front size i xs)

theorem remainder_front (xs : List α) : remainder n (front ++ xs) = remainder n xs := by
  rw [remainder, length_div_front size positive, drop_front size, remainder]

end front

/-- The parts and the rest are the whole list; the induction takes one part off. -/
theorem parts_remainder (positive : 0 < n) (xs : List α) : (parts n xs).flatten ++ remainder n xs = xs := by
  induction length : xs.length using Nat.strongRecOn generalizing xs with
  | ind len ih =>
    rcases Nat.lt_or_ge xs.length n with short | long
    · rw [parts_short short, remainder_short short]
      rfl
    · have size : (xs.take n).length = n := by
        rw [List.length_take]
        omega
      have split : xs.take n ++ xs.drop n = xs := List.take_append_drop n xs
      have later := ih (xs.drop n).length (by rw [List.length_drop]; omega) (xs.drop n) rfl
      calc (parts n xs).flatten ++ remainder n xs
          = (parts n (xs.take n ++ xs.drop n)).flatten ++ remainder n (xs.take n ++ xs.drop n) := by rw [split]
        _ = xs.take n ++ ((parts n (xs.drop n)).flatten ++ remainder n (xs.drop n)) := by
          rw [parts_front size positive, remainder_front size positive, List.flatten_cons, List.append_assoc]
        _ = xs := by rw [later, split]

end SocketPrograms.Lib
