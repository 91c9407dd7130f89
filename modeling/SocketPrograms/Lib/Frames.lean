import SocketPrograms.Lib.Machine

/-! Streams that are a row of frames: a machine that takes one frame in each step, and what is
left of such a stream when it is cut. -/

namespace SocketPrograms.Lib

namespace Machine
variable {σ ο α : Type*} (M : Machine Unit σ ο)

/-- A machine that takes one of the items it holds in each step yields them in order, and
yields `last` from then on. -/
theorem run_items (holds : List α → σ → Prop) {seen : α → ο} {last : ο}
    (takes : ∀ a rest s, holds (a :: rest) s → ∃ s', M.step () s = (s', [seen a]) ∧ holds rest s')
    (drained : ∀ s, holds [] s → ∃ s', M.step () s = (s', [last]) ∧ holds [] s')
    {items : List α} {s : σ} (start : holds items s) (k : Nat) :
    (M.run (List.replicate (items.length + k) ()) s).2 = items.map seen ++ List.replicate k last := by
  induction items generalizing s with
  | nil =>
    simp only [List.length_nil, Nat.zero_add, List.map_nil, List.nil_append]
    induction k generalizing s with
    | zero => rfl
    | succ k ih =>
      obtain ⟨s', step, again⟩ := drained s start
      rw [List.replicate_succ, run_cons, step, ih again]
      rfl
  | cons a rest ih =>
    obtain ⟨s', step, next⟩ := takes a rest s start
    have count : (a :: rest).length + k = (rest.length + k) + 1 := by
      rw [List.length_cons]
      omega
    rw [count, List.replicate_succ, run_cons, step, ih next]
    rfl

end Machine

section cut
variable {α β : Type*}

structure EndsBy (frame : α → List β) (cut : Nat) (whole later : List α) : Prop where
  inside : (whole.flatMap frame).length ≤ cut
  beyond : ∀ next rest, later = next :: rest → cut < ((whole ++ [next]).flatMap frame).length

/-- A cut leaves the frames that end before it and a proper part of the next one. -/
theorem cut_frames (frame : α → List β) (items : List α) (cut : Nat) :
    ∃ whole later tail, items = whole ++ later ∧ EndsBy frame cut whole later ∧
      (items.flatMap frame).take cut = whole.flatMap frame ++ tail ∧
      (tail = [] ∨ ∃ next ∈ later, ∃ size < (frame next).length, tail = (frame next).take size) := by
  induction items generalizing cut with
  | nil => exact ⟨[], [], [], rfl, ⟨by simp, by simp⟩, by simp, Or.inl rfl⟩
  | cons a rest ih =>
    by_cases fits : (frame a).length ≤ cut
    · obtain ⟨whole, later, tail, rfl, ends, left, part⟩ := ih (cut - (frame a).length)
      refine ⟨a :: whole, later, tail, rfl, ⟨?_, ?_⟩, ?_, part⟩
      · have inside := ends.inside
        rw [List.flatMap_cons, List.length_append]
        omega
      · intro next more split
        have beyond := ends.beyond next more split
        rw [List.cons_append, List.flatMap_cons, List.length_append]
        omega
      · rw [List.flatMap_cons, List.take_append, List.take_of_length_le fits, left, List.flatMap_cons,
          List.append_assoc]
    · refine ⟨[], a :: rest, (frame a).take cut, rfl, ⟨by simp, ?_⟩, ?_, Or.inr ⟨a, by simp, cut, by omega, rfl⟩⟩
      · intro next more split
        obtain ⟨rfl, -⟩ := List.cons.inj split
        simp
        omega
      · rw [List.flatMap_cons, List.take_append_of_le_length (by omega)]
        rfl

end cut
end SocketPrograms.Lib
