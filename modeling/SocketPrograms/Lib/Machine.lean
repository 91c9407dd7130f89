import Mathlib.Data.List.Basic
import Mathlib.Tactic.Common

/-! Deterministic machines driven by inputs and observed through outputs. A run is a
finite list of inputs, so a statement about every run is a statement about every
finite behaviour. Nothing here refers to a particular program. -/

namespace SocketPrograms.Lib

/-- One input at a time, every step yields the next state and what was observed. -/
structure Machine (ι σ ο : Type*) where
  step : ι → σ → σ × List ο

namespace Machine
variable {ι σ ο : Type*} (M : Machine ι σ ο)

def run : List ι → σ → σ × List ο
  | [], s => (s, [])
  | i :: rest, s =>
      let first := M.step i s
      let later := run rest first.1
      (later.1, first.2 ++ later.2)

@[simp] theorem run_nil (s : σ) : M.run [] s = (s, []) := rfl

@[simp] theorem run_cons (i : ι) (rest : List ι) (s : σ) :
    M.run (i :: rest) s =
      ((M.run rest (M.step i s).1).1, (M.step i s).2 ++ (M.run rest (M.step i s).1).2) := rfl

theorem run_append (first second : List ι) (s : σ) :
    M.run (first ++ second) s =
      ((M.run second (M.run first s).1).1, (M.run first s).2 ++ (M.run second (M.run first s).1).2) := by
  induction first generalizing s with
  | nil => simp
  | cons i rest ih => simp [ih]

/-- `allowed` may look at the history so far, so that it can say which answers the
environment is able to give after it. -/
def Along (allowed : List ο → σ → ι → Prop) : List ι → List ο → σ → Prop
  | [], _, _ => True
  | i :: rest, past, s =>
      allowed past s i ∧ Along allowed rest (past ++ (M.step i s).2) (M.step i s).1

instance decidableAlong {allowed : List ο → σ → ι → Prop} [∀ past s i, Decidable (allowed past s i)] :
    (inputs : List ι) → (past : List ο) → (s : σ) → Decidable (M.Along allowed inputs past s)
  | [], _, _ => isTrue trivial
  | i :: rest, past, s =>
      have : Decidable (M.Along allowed rest (past ++ (M.step i s).2) (M.step i s).1) := decidableAlong rest _ _
      inferInstanceAs (Decidable (allowed past s i ∧ M.Along allowed rest _ _))

theorem along_append (allowed : List ο → σ → ι → Prop) (first second : List ι) (past : List ο) (s : σ) :
    M.Along allowed (first ++ second) past s ↔
      M.Along allowed first past s ∧ M.Along allowed second (past ++ (M.run first s).2) (M.run first s).1 := by
  induction first generalizing past s with
  | nil => simp [Along]
  | cons i rest ih => simp [Along, ih, and_assoc]

def Always (good : List ο → σ → Prop) : List ι → List ο → σ → Prop
  | [], past, s => good past s
  | i :: rest, past, s => good past s ∧ Always good rest (past ++ (M.step i s).2) (M.step i s).1

theorem Always.head {M : Machine ι σ ο} {good : List ο → σ → Prop} {inputs : List ι} {past : List ο} {s : σ}
    (always : M.Always good inputs past s) : good past s := by
  cases inputs with
  | nil => exact always
  | cons i rest => exact always.1

theorem always_iff (good : List ο → σ → Prop) (inputs : List ι) (past : List ο) (s : σ) :
    M.Always good inputs past s ↔ ∀ first rest, inputs = first ++ rest →
      good (past ++ (M.run first s).2) (M.run first s).1 := by
  induction inputs generalizing past s with
  | nil => simp [Always]
  | cons i inputs ih =>
    rw [Always, ih]
    constructor
    · intro always first rest split
      cases first with
      | nil => simpa using always.1
      | cons head first =>
        rw [List.cons_append, List.cons.injEq] at split
        have later := always.2 first rest split.2
        rw [split.1, List.append_assoc] at later
        exact later
    · intro all
      constructor
      · simpa using all [] (i :: inputs) rfl
      · intro first rest split
        have now := all (i :: first) rest (by rw [split, List.cons_append])
        rw [run_cons, ← List.append_assoc] at now
        exact now

/-- The rule of invariants: what holds at the start and survives each allowed step holds
after every allowed run. -/
theorem invariant {allowed : List ο → σ → ι → Prop} (Inv : List ο → σ → Prop)
    (keep : ∀ past s i, Inv past s → allowed past s i → Inv (past ++ (M.step i s).2) (M.step i s).1)
    {inputs : List ι} {past : List ο} {s : σ} (start : Inv past s)
    (along : M.Along allowed inputs past s) :
    Inv (past ++ (M.run inputs s).2) (M.run inputs s).1 := by
  induction inputs generalizing past s with
  | nil => simpa using start
  | cons i rest ih =>
    have later := ih (keep past s i start along.1) along.2
    simpa using later

theorem invariant_all (Inv : List ο → σ → Prop)
    (keep : ∀ past s i, Inv past s → Inv (past ++ (M.step i s).2) (M.step i s).1)
    (inputs : List ι) {past : List ο} {s : σ} (start : Inv past s) :
    Inv (past ++ (M.run inputs s).2) (M.run inputs s).1 := by
  induction inputs generalizing past s with
  | nil => simpa using start
  | cons i rest ih =>
    have later := ih (keep past s i start)
    simpa using later

/-- Steps on inputs `k`, `k + 1`, … as long as the machine is busy, `fuel` of them at most. -/
def runWhile (busy : σ → Bool) (inputs : Nat → ι) : Nat → Nat → σ → σ × List ο
  | 0, _, s => (s, [])
  | fuel + 1, k, s =>
      if busy s then
        let first := M.step (inputs k) s
        let later := runWhile busy inputs fuel (k + 1) first.1
        (later.1, first.2 ++ later.2)
      else (s, [])

theorem runWhile_idle {busy : σ → Bool} {s : σ} (idle : busy s = false) (inputs : Nat → ι)
    (fuel k : Nat) : M.runWhile busy inputs fuel k s = (s, []) := by
  cases fuel with
  | zero => rfl
  | succ fuel => simp [runWhile, idle]

theorem runWhile_busy {busy : σ → Bool} {s : σ} (working : busy s = true) (inputs : Nat → ι)
    (fuel k : Nat) :
    M.runWhile busy inputs (fuel + 1) k s =
      ((M.runWhile busy inputs fuel (k + 1) (M.step (inputs k) s).1).1,
        (M.step (inputs k) s).2 ++
          (M.runWhile busy inputs fuel (k + 1) (M.step (inputs k) s).1).2) := by
  simp [runWhile, working]

/-- Stepping while busy is an ordinary run on a stretch of the inputs. -/
theorem runWhile_eq_run (busy : σ → Bool) (inputs : Nat → ι) (fuel k : Nat) (s : σ) :
    ∃ count ≤ fuel, M.runWhile busy inputs fuel k s =
      M.run ((List.range' k count).map inputs) s := by
  induction fuel generalizing k s with
  | zero => exact ⟨0, Nat.le_refl 0, rfl⟩
  | succ fuel ih =>
    cases working : busy s with
    | false => exact ⟨0, Nat.zero_le _, by simp [M.runWhile_idle working]⟩
    | true =>
      obtain ⟨count, bound, same⟩ := ih (k + 1) (M.step (inputs k) s).1
      refine ⟨count + 1, by omega, ?_⟩
      rw [M.runWhile_busy working, same]
      simp [List.range'_succ]

/-- A machine that takes stretches of the steps of another has no runs that the other lacks. -/
theorem run_of_stretches {κ : Type*} {N : Machine κ σ ο}
    (stretch : ∀ c s, ∃ inputs, N.step c s = M.run inputs s) (coarse : List κ) (s : σ) :
    ∃ inputs, N.run coarse s = M.run inputs s := by
  induction coarse generalizing s with
  | nil => exact ⟨[], rfl⟩
  | cons c rest ih =>
    obtain ⟨first, here⟩ := stretch c s
    obtain ⟨later, same⟩ := ih (N.step c s).1
    refine ⟨first ++ later, ?_⟩
    rw [run_cons, run_append, same, here]

theorem runWhile_invariant (busy : σ → Bool) (inputs : Nat → ι) (Inv : Nat → List ο → σ → Prop)
    (keep : ∀ k past s, Inv k past s → busy s = true →
      Inv (k + 1) (past ++ (M.step (inputs k) s).2) (M.step (inputs k) s).1)
    (fuel k : Nat) {past : List ο} {s : σ} (start : Inv k past s) :
    ∃ later, Inv later (past ++ (M.runWhile busy inputs fuel k s).2) (M.runWhile busy inputs fuel k s).1 := by
  induction fuel generalizing k past s with
  | zero => exact ⟨k, by simpa [runWhile] using start⟩
  | succ fuel ih =>
    cases working : busy s with
    | false => exact ⟨k, by simpa [M.runWhile_idle working] using start⟩
    | true =>
      obtain ⟨later, kept⟩ := ih (k + 1) (keep k past s start working)
      exact ⟨later, by simpa [M.runWhile_busy working] using kept⟩

/-- A rank that drops at every step of a busy machine ends the stretch within its bound. -/
theorem runWhile_ends {busy : σ → Bool} (rank : σ → Nat) (inputs : Nat → ι) (Inv : Nat → σ → Prop)
    (keep : ∀ k s, Inv k s → busy s = true →
      Inv (k + 1) (M.step (inputs k) s).1 ∧
        (busy (M.step (inputs k) s).1 = true → rank (M.step (inputs k) s).1 < rank s))
    (fuel k : Nat) (s : σ) (start : Inv k s) (bound : rank s < fuel) :
    busy (M.runWhile busy inputs fuel k s).1 = false := by
  induction fuel generalizing k s with
  | zero => omega
  | succ fuel ih =>
    cases working : busy s with
    | false => rw [M.runWhile_idle working]; exact working
    | true =>
      rw [M.runWhile_busy working]
      obtain ⟨kept, drop⟩ := keep k s start working
      cases again : busy (M.step (inputs k) s).1 with
      | false => rw [M.runWhile_idle again]; exact again
      | true => exact ih (k + 1) _ kept (by have := drop again; omega)

def visits (busy : σ → Bool) (inputs : Nat → ι) : Nat → Nat → σ → List (ι × σ)
  | 0, _, _ => []
  | fuel + 1, k, s => if busy s then (inputs k, s) :: visits busy inputs fuel (k + 1) (M.step (inputs k) s).1 else []

theorem visits_idle {busy : σ → Bool} {s : σ} (idle : busy s = false) (inputs : Nat → ι) (fuel k : Nat) :
    M.visits busy inputs fuel k s = [] := by
  cases fuel with
  | zero => rfl
  | succ fuel => simp [visits, idle]

theorem visits_busy {busy : σ → Bool} {s : σ} (working : busy s = true) (inputs : Nat → ι) (fuel k : Nat) :
    M.visits busy inputs (fuel + 1) k s =
      (inputs k, s) :: M.visits busy inputs fuel (k + 1) (M.step (inputs k) s).1 := by
  simp [visits, working]

theorem ends_step {busy : σ → Bool} {s : σ} (working : busy s = true) (inputs : Nat → ι) (k : Nat) :
    (∃ fuel, busy (M.runWhile busy inputs fuel k s).1 = false) ↔
      ∃ fuel, busy (M.runWhile busy inputs fuel (k + 1) (M.step (inputs k) s).1).1 = false := by
  constructor
  · intro ⟨fuel, idle⟩
    cases fuel with
    | zero => exact absurd (working.symm.trans idle) (by decide)
    | succ fuel =>
      rw [M.runWhile_busy working] at idle
      exact ⟨fuel, idle⟩
  · intro ⟨fuel, idle⟩
    exact ⟨fuel + 1, by rw [M.runWhile_busy working]; exact idle⟩

/-- A loop that is busy until it has `n` units, from a supply that may hold fewer. `At` tells
how many it has and how many are left. -/
structure Collects (busy : σ → Bool) (inputs : Nat → ι) (n : Nat) (At : Nat → Nat → σ → Prop) : Prop where
  working : ∀ {total left s}, At total left s → total < n ∧ busy s = true
  takes : ∀ {total left s} k, At total left s → 0 < left → ∃ count, 0 < count ∧ count ≤ left ∧
    if total + count < n then At (total + count) (left - count) (M.step (inputs k) s).1
    else busy (M.step (inputs k) s).1 = false
  waits : ∀ {total s} k, At total 0 s → At total 0 (M.step (inputs k) s).1

theorem Collects.ends_iff {M : Machine ι σ ο} {busy : σ → Bool} {inputs : Nat → ι} {n : Nat}
    {At : Nat → Nat → σ → Prop} (collects : M.Collects busy inputs n At) (k : Nat) {total left : Nat} {s : σ}
    (start : At total left s) :
    (∃ fuel, busy (M.runWhile busy inputs fuel k s).1 = false) ↔ n ≤ total + left := by
  constructor
  · intro ⟨fuel, idle⟩
    by_contra short
    have keep (k : Nat) (past : List ο) (s : σ)
        (inv : ∃ total' left', At total' left' s ∧ total' + left' = total + left) (_ : busy s = true) :
        ∃ total' left', At total' left' (M.step (inputs k) s).1 ∧ total' + left' = total + left := by
      obtain ⟨total', left', now, same⟩ := inv
      rcases Nat.eq_zero_or_pos left' with rfl | some_left
      · exact ⟨total', 0, collects.waits k now, same⟩
      · obtain ⟨count, -, bound, next⟩ := collects.takes k now some_left
        rw [if_pos (by omega)] at next
        exact ⟨_, _, next, by omega⟩
    obtain ⟨-, total', left', now, -⟩ := @runWhile_invariant _ _ _ M busy inputs
      (fun _ _ s => ∃ total' left', At total' left' s ∧ total' + left' = total + left) keep fuel k [] s
      ⟨total, left, start, rfl⟩
    exact absurd ((collects.working now).2.symm.trans idle) (by decide)
  · intro enough
    induction left using Nat.strongRecOn generalizing k total s with
    | ind left ih =>
      obtain ⟨less, working⟩ := collects.working start
      obtain ⟨count, positive, bound, next⟩ := collects.takes k start (by omega)
      apply (M.ends_step working inputs k).mpr
      split_ifs at next with again
      · exact ih (left - count) (by omega) (k + 1) next (by omega)
      · exact ⟨0, next⟩

end Machine

section Histories
variable {ο : Type*}

def Each (right : List ο → ο → Prop) (past : List ο) : Prop :=
  ∀ before x after, past = before ++ x :: after → right before x

@[simp] theorem each_nil (right : List ο → ο → Prop) : Each right [] := by
  intro before x after split
  simp at split

@[simp] theorem each_cons (right : List ο → ο → Prop) (x : ο) (rest : List ο) :
    Each right (x :: rest) ↔ right [] x ∧ Each (fun before => right (x :: before)) rest := by
  constructor
  · intro each
    refine ⟨each [] x rest rfl, fun before y after split => ?_⟩
    exact each (x :: before) y after (by rw [split, List.cons_append])
  · rintro ⟨first, each⟩ before y after split
    cases before with
    | nil =>
      rw [List.nil_append, List.cons.injEq] at split
      exact split.1 ▸ first
    | cons head before =>
      rw [List.cons_append, List.cons.injEq] at split
      rw [← split.1]
      exact each before y after split.2

@[simp] theorem each_append (right : List ο → ο → Prop) (first second : List ο) :
    Each right (first ++ second) ↔ Each right first ∧ Each (fun before => right (first ++ before)) second := by
  induction first generalizing right with
  | nil => simp
  | cons x rest ih => simp [ih, and_assoc]

end Histories
end SocketPrograms.Lib
