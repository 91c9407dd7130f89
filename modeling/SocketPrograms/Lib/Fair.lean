import SocketPrograms.Lib.Machine

/-! Machines whose steps belong to parties, driven in rounds in which every party has its turn.
Nothing is said about how often or in which order. -/

namespace SocketPrograms.Lib

def Covers {ι κ : Type*} (party : ι → κ) (round : List ι) : Prop := ∀ k, ∃ i ∈ round, party i = k

namespace Machine
variable {ι σ ο κ : Type*}

/-- Steps either change nothing or lower the rank, and as long as the goal is not reached some
party can lower it whatever its turn is. -/
structure Progress (M : Machine ι σ ο) (allowed : List ο → σ → ι → Prop) (party : ι → κ)
    (Inv : List ο → σ → Prop) (rank : σ → Nat) (goal : σ → Prop) : Prop where
  keeps : ∀ past s i, Inv past s → allowed past s i → Inv (past ++ (M.step i s).2) (M.step i s).1
  moves : ∀ past s i, Inv past s → allowed past s i → (M.step i s).1 = s ∨ rank (M.step i s).1 < rank s
  enabled : ∀ past s, Inv past s → ¬goal s →
    ∃ k, ∀ past i, allowed past s i → party i = k → rank (M.step i s).1 < rank s
  final : ∀ past s i, Inv past s → allowed past s i → goal s → goal (M.step i s).1

variable {M : Machine ι σ ο} {allowed : List ο → σ → ι → Prop} {party : ι → κ}
  {Inv : List ο → σ → Prop} {rank : σ → Nat} {goal : σ → Prop}

theorem Progress.of_waits {waits : σ → κ → Prop}
    (keeps : ∀ past s i, Inv past s → allowed past s i → Inv (past ++ (M.step i s).2) (M.step i s).1)
    (moves : ∀ past past' s i, Inv past s → allowed past' s i →
      (M.step i s).1 = s ∧ waits s (party i) ∨ rank (M.step i s).1 < rank s)
    (free : ∀ past s, Inv past s → ¬goal s → ∃ k, ¬waits s k)
    (final : ∀ past s i, Inv past s → allowed past s i → goal s → goal (M.step i s).1) :
    M.Progress allowed party Inv rank goal where
  keeps := keeps
  moves past s i inv may := (moves past past s i inv may).imp_left And.left
  enabled past s inv unfinished := by
    obtain ⟨k, able⟩ := free past s inv unfinished
    refine ⟨k, fun past' i may mine => (moves past past' s i inv may).resolve_left fun stays => ?_⟩
    exact able (mine ▸ stays.2)
  final := final

theorem Progress.rank_le (progress : M.Progress allowed party Inv rank goal) {inputs : List ι} {past : List ο} {s : σ}
    (inv : Inv past s) (along : M.Along allowed inputs past s) : rank (M.run inputs s).1 ≤ rank s := by
  induction inputs generalizing past s with
  | nil => exact Nat.le_refl _
  | cons i rest ih =>
    have later := ih (progress.keeps past s i inv along.1) along.2
    rw [run_cons]
    rcases progress.moves past s i inv along.1 with same | drop
    · rw [same] at later ⊢
      exact later
    · exact Nat.le_trans later (Nat.le_of_lt drop)

theorem Progress.goal_stays (progress : M.Progress allowed party Inv rank goal) {inputs : List ι} {past : List ο}
    {s : σ} (inv : Inv past s) (along : M.Along allowed inputs past s) (reached : goal s) :
    goal (M.run inputs s).1 := by
  induction inputs generalizing past s with
  | nil => exact reached
  | cons i rest ih =>
    exact ih (progress.keeps past s i inv along.1) along.2 (progress.final past s i inv along.1 reached)

theorem Progress.round_drops (progress : M.Progress allowed party Inv rank goal) {k : κ} {round : List ι}
    {past : List ο} {s : σ} (inv : Inv past s) (along : M.Along allowed round past s)
    (able : ∀ past i, allowed past s i → party i = k → rank (M.step i s).1 < rank s)
    (turn : ∃ i ∈ round, party i = k) : rank (M.run round s).1 < rank s := by
  induction round generalizing past with
  | nil => simp at turn
  | cons i rest ih =>
    have kept := progress.keeps past s i inv along.1
    have after := progress.rank_le kept along.2
    rw [run_cons]
    rcases progress.moves past s i inv along.1 with same | drop
    · rw [same] at kept ⊢
      have onward := along.2
      rw [same] at onward
      apply ih kept onward
      obtain ⟨j, member, mine⟩ := turn
      rcases List.mem_cons.mp member with rfl | later
      · have drop := able past j along.1 mine
        rw [same] at drop
        exact absurd drop (Nat.lt_irrefl _)
      · exact ⟨j, later, mine⟩
    · exact Nat.lt_of_le_of_lt after drop

/-- After more rounds than the rank at the start the goal is reached. -/
theorem Progress.rounds (progress : M.Progress allowed party Inv rank goal) {rounds : List (List ι)}
    (covered : ∀ round ∈ rounds, Covers party round) {past : List ο} {s : σ} (inv : Inv past s)
    (along : M.Along allowed rounds.flatten past s) (enough : rank s < rounds.length) :
    goal (M.run rounds.flatten s).1 := by
  induction rounds generalizing past s with
  | nil => simp at enough
  | cons round rest ih =>
    rw [List.flatten_cons] at along ⊢
    obtain ⟨now, later⟩ := (M.along_append _ _ _ _ _).mp along
    have kept := M.invariant Inv progress.keeps inv now
    rw [run_append]
    by_cases reached : goal s
    · exact progress.goal_stays kept later (progress.goal_stays inv now reached)
    · obtain ⟨k, able⟩ := progress.enabled past s inv reached
      have drop := progress.round_drops inv now able (covered round (List.mem_cons_self ..) k)
      rw [List.length_cons] at enough
      exact ih (fun other member => covered other (List.mem_cons_of_mem _ member)) kept later (by omega)

def gate (M : Machine ι σ ο) (ready : ι → σ → Bool) : Machine ι σ ο :=
  ⟨fun i s => if ready i s then M.step i s else (s, [])⟩

/-- Where every step that is allowed is ready, nothing waits. -/
theorem gate_free {ready : ι → σ → Bool}
    (keeps : ∀ past s i, Inv past s → allowed past s i → Inv (past ++ (M.step i s).2) (M.step i s).1)
    (free : ∀ past s i, Inv past s → allowed past s i → ready i s = true) {inputs : List ι} {past : List ο} {s : σ}
    (inv : Inv past s) (along : (M.gate ready).Along allowed inputs past s) :
    M.Along allowed inputs past s ∧ (M.gate ready).run inputs s = M.run inputs s := by
  induction inputs generalizing past s with
  | nil => exact ⟨trivial, rfl⟩
  | cons i rest ih =>
    have step : (M.gate ready).step i s = M.step i s := if_pos (free past s i inv along.1)
    obtain ⟨may, onward⟩ := along
    rw [step] at onward
    obtain ⟨later, same⟩ := ih (keeps past s i inv may) onward
    refine ⟨⟨may, later⟩, ?_⟩
    rw [run_cons, run_cons, step, same]

end Machine
end SocketPrograms.Lib
