import SocketPrograms.Poll.Invariant
import Mathlib.Data.Finset.Card
import Mathlib.Algebra.Ring.Nat

/-! The size of the allocation behind `pfds`. It is doubled when it is full and never given
back, so it follows the largest number of entries there has been. -/

namespace SocketPrograms.Poll
open Lib Sweep Table

/-- The allocation is the least of 5, 10, 20, … that holds the entries there have been at once,
the listener among them. -/
structure Allocation (past : List Call) (size : Nat) : Prop where
  doubled : ∃ j, size = 5 * 2 ^ j
  holds : ∀ before after, past = before ++ after → (openClients before).card + 1 ≤ size
  needed : size = 5 ∨ ∃ before after, past = before ++ after ∧ size < 2 * ((openClients before).card + 1)

/-! ### One iteration -/

theorem addToPfds_fdSize {t t' : Table} {newfd : Int} {junk : Nat → PollFd} (added : addToPfds t newfd junk = some t') :
    t'.fdCount = t.fdCount + 1 ∧ t'.fdSize = if t.fdCount = t.fdSize then t.fdSize * 2 else t.fdSize := by
  have grown : (grow t junk).fdCount = t.fdCount ∧
      (grow t junk).fdSize = if t.fdCount = t.fdSize then t.fdSize * 2 else t.fdSize := by
    unfold grow
    split <;> exact ⟨rfl, rfl⟩
  simp only [addToPfds] at added
  split at added
  next => cases added
  next cell present =>
    rw [← Option.some.inj added]
    exact ⟨congrArg (· + 1) grown.1, grown.2⟩

theorem delFromPfds_fdSize {t t' : Table} {i : Nat} (removed : delFromPfds t i = some t') : t'.fdSize = t.fdSize := by
  unfold delFromPfds at removed
  split at removed
  · cases removed
  · split at removed
    · cases removed
    · split at removed
      · rw [← Option.some.inj removed]
      · cases removed

theorem visit_fdSize (p : Program) (listener : Int) (ans : Answers) (i : Nat) (t : Table) :
    (p.visit listener ans i t).1.table.fdSize = t.fdSize ∨
      t.fdCount = t.fdSize ∧ (p.visit listener ans i t).1.table.fdCount = t.fdCount + 1 ∧
        (p.visit listener ans i t).1.table.fdSize = t.fdSize * 2 := by
  have welcomed : (welcome listener ans i t).1.table.fdSize = t.fdSize ∨
      t.fdCount = t.fdSize ∧ (welcome listener ans i t).1.table.fdCount = t.fdCount + 1 ∧
        (welcome listener ans i t).1.table.fdSize = t.fdSize * 2 := by
    cases result : addToPfds t ans.accept ans.junk with
    | none => simp [welcome, result]
    | some t' =>
      obtain ⟨count, size⟩ := addToPfds_fdSize result
      by_cases full : t.fdCount = t.fdSize
      · rw [if_pos full] at size
        exact Or.inr (by simp [welcome, result, full, count, size])
      · rw [if_neg full] at size
        exact Or.inl (by simp [welcome, result, size])
  have left (fd : Int) : (hangUp ans i fd t).1.table.fdSize = t.fdSize := by
    cases result : delFromPfds t i with
    | none => simp [hangUp, result]
    | some t' => simp [hangUp, result, delFromPfds_fdSize result]
  cases p with
  | pollServer =>
    simp only [Program.visit, PollServer.visit]
    split
    · exact Or.inl rfl
    · split_ifs
      · exact Or.inl rfl
      · exact welcomed
      · exact Or.inl (left _)
      · exact Or.inl rfl
      · exact Or.inl rfl
  | pollServer2 =>
    simp only [Program.visit, PollServer2.visit]
    split
    · exact Or.inl rfl
    · split_ifs
      · unfold PollServer2.acceptConn
        split
        · exact Or.inl rfl
        · exact welcomed
      · unfold PollServer2.handler
        split
        · exact Or.inl (left _)
        · exact Or.inl rfl
      · exact Or.inl rfl

theorem step_fdSize (p : Program) (listener : Int) (ans : Answers) (s : State) :
    ((server p listener).step ans s).1.table.fdSize = s.table.fdSize ∨
      s.table.fdCount = s.table.fdSize ∧ ((server p listener).step ans s).1.table.fdCount = s.table.fdCount + 1 ∧
        ((server p listener).step ans s).1.table.fdSize = s.table.fdSize * 2 := by
  obtain ⟨t, phase⟩ := s
  cases phase with
  | poll =>
    cases result : ans.poll with
    | none => exact Or.inl (by rw [step_poll_none result])
    | some revents => exact Or.inl (by rw [step_poll_some result]; rfl)
  | scan i =>
    rcases Nat.lt_or_ge i t.fdCount with inside | outside
    · rw [step_scan inside]
      exact visit_fdSize p listener ans i t
    · exact Or.inl (by rw [step_scan_end outside])
  | exited | crashed => exact Or.inl rfl

theorem step_accepts (p : Program) {listener : Int} {ans : Answers} {s : State} (wf : WellFormed listener s.table)
    (result : s.phase = .scan 0 → -1 ≤ ans.accept) :
    (∀ fd result, Call.accept fd result ∈ ((server p listener).step ans s).2 → result < 0) ∨
      ((server p listener).step ans s).2 = [.accept listener ans.accept] := by
  obtain ⟨s', calls, step, moves⟩ := step_moves p wf result
  rw [step]
  cases moves with
  | quiet waits safe => exact Or.inl (by simp)
  | polled waiting => exact Or.inl (by simp)
  | visited busy here effect =>
    cases effect with
    | idle quiet => exact Or.inl (by simp)
    | accepted => exact Or.inr rfl
    | refused => exact Or.inr rfl
    | left => exact Or.inl (by simp)
    | data ready client stays =>
      refine Or.inl fun fd result member => ?_
      rcases List.mem_cons.mp member with first | sent
      · cases first
      · obtain ⟨dest, data, accepted, send⟩ := replies_send p sent
        cases send

/-! ### Whole runs -/

theorem openClients_shrink (past : List Call) {calls : List Call}
    (none : ∀ listener result, Call.accept listener result ∈ calls → result < 0) :
    openClients (past ++ calls) ⊆ openClients past := by
  induction calls generalizing past with
  | nil => simp
  | cons call rest ih =>
    have first : openClients (past ++ [call]) ⊆ openClients past := by
      rw [openClients_append, List.foldl_cons, List.foldl_nil]
      cases call with
      | accept listener result =>
        have failed := none listener result (List.mem_cons_self ..)
        simp [Call.track, Int.not_le.mpr failed]
      | close fd => exact Finset.erase_subset _ _
      | poll | recv | send => exact Finset.Subset.refl _
    have later := ih (past ++ [call]) fun listener result member => none listener result (List.mem_cons_of_mem _ member)
    rw [List.append_cons]
    exact later.trans first

theorem Representation.fdCount_eq {listener : Int} {past : List Call} {s : State}
    (rep : Representation listener past s) : s.table.fdCount = (openClients past).card + 1 := by
  have same : s.table.fds.toFinset = insert listener (openClients past) := by
    ext fd
    rw [List.mem_toFinset, rep.exactly, Finset.mem_insert]
  have length := congrArg Finset.card same
  rwa [List.toFinset_card_of_nodup rep.wf.distinct, rep.wf.length_fds,
    Finset.card_insert_of_notMem rep.listenerKept.1] at length

theorem step_holds {p : Program} {listener : Int} {past : List Call} {s : State} {ans : Answers}
    (rep : Representation listener past s) (fresh : AcceptFresh listener past s ans) {first rest : List Call}
    (split : ((server p listener).step ans s).2 = first ++ rest) :
    (openClients (past ++ first)).card + 1 ≤ max s.table.fdSize ((server p listener).step ans s).1.table.fdSize := by
  have now : (openClients past).card + 1 ≤ s.table.fdSize := rep.fdCount_eq ▸ rep.wf.bounded
  rcases step_accepts p rep.wf (fun _ => (rep.freshFor fresh).low) with none | alone
  · have front (fd result : Int) (member : Call.accept fd result ∈ first) : result < 0 :=
      none fd result (split ▸ List.mem_append_left rest member)
    have shrunk := Finset.card_le_card (openClients_shrink past front)
    omega
  · rw [alone] at split
    cases first with
    | nil =>
      rw [List.append_nil]
      omega
    | cons call first =>
      -- the one call is the `accept`, after which the new state holds every entry
      have rep' := rep.step (p := p) (fun _ => fresh)
      have bounded := rep'.wf.bounded
      rw [rep'.fdCount_eq, alone] at bounded
      rw [List.cons_append, List.cons.injEq, List.nil_eq, List.append_eq_nil_iff] at split
      rw [split.2.1, ← split.1]
      omega

theorem step_allocation {p : Program} {listener : Int} {past : List Call} {s : State} {ans : Answers}
    (rep : Representation listener past s) (fresh : AcceptFresh listener past s ans)
    (alloc : Allocation past s.table.fdSize) :
    Allocation (past ++ ((server p listener).step ans s).2) ((server p listener).step ans s).1.table.fdSize := by
  have size := step_fdSize p listener ans s
  have grows : s.table.fdSize ≤ ((server p listener).step ans s).1.table.fdSize := by omega
  refine ⟨?_, ?_, ?_⟩
  · obtain ⟨j, power⟩ := alloc.doubled
    rcases size with same | ⟨-, -, twice⟩
    · exact ⟨j, same.trans power⟩
    · exact ⟨j + 1, by rw [twice, power, Nat.pow_succ, Nat.mul_assoc]⟩
  · intro before after split
    rcases List.append_eq_append_iff.mp split with ⟨middle, beyond, rest⟩ | ⟨middle, within, -⟩
    · have fits := step_holds (p := p) rep fresh rest
      rw [beyond]
      omega
    · exact (alloc.holds before middle within).trans grows
  · rcases size with same | ⟨full, more, twice⟩
    · rw [same]
      rcases alloc.needed with first | ⟨before, after, split, less⟩
      · exact Or.inl first
      · exact Or.inr ⟨before, after ++ ((server p listener).step ans s).2, by rw [split, List.append_assoc], less⟩
    · have rep' := rep.step (p := p) (fun _ => fresh)
      have count := rep'.fdCount_eq
      exact Or.inr ⟨_, [], (List.append_nil _).symm, by omega⟩

/-- At every moment of a run the allocation is the least that doubling reaches for the largest
number of entries so far, and the array fills `fd_count` of its cells. -/
theorem run_allocation (p : Program) (listener : Int) (junk : Nat → PollFd) (inputs : List Answers)
    (fresh : (server p listener).Along (AcceptFresh listener) inputs [] (start listener junk)) :
    let now := (server p listener).run inputs (start listener junk)
    Allocation now.2 now.1.table.fdSize ∧ now.1.table.pfds.length = now.1.table.fdSize ∧
      now.1.table.fdCount = (openClients now.2).card + 1 := by
  have begins : Allocation [] (start listener junk).table.fdSize := by
    refine ⟨⟨0, rfl⟩, ?_, Or.inl rfl⟩
    intro before after split
    rw [List.nil_eq, List.append_eq_nil_iff] at split
    rw [split.1]
    exact Nat.le_add_left 1 4
  have kept := (server p listener).invariant
    (fun past s => Representation listener past s ∧ Allocation past s.table.fdSize)
    (fun past s ans both fresh => ⟨both.1.step fun _ => fresh, step_allocation both.1 fresh both.2⟩)
    ⟨start_representation listener junk, begins⟩ fresh
  rw [List.nil_append] at kept
  exact ⟨kept.2, kept.1.wf.allocated, kept.1.fdCount_eq⟩

instance (listener : Int) (past : List Call) (s : State) (ans : Answers) :
    Decidable (AcceptFresh listener past s ans) :=
  inferInstanceAs (Decidable (_ ∨ _))

def joins (count : Nat) : List Answers :=
  let ans (newfd : Int) : Answers := {
    poll := some fun k => if k = 0 then POLLIN else 0
    accept := newfd
    recv := none
    send := fun _ => -1
    junk := fun _ => ⟨0, 0, 0⟩ }
  (List.range count).flatMap fun (j : Nat) => [ans (-1), ans (4 + j)] ++ List.replicate (j + 2) (ans (-1))

/-- With the fifth client the array has six entries and its ten cells are the least that hold them. -/
theorem run_allocation_ten :
    let now := (server .pollServer2 3).run (joins 5) (start 3 fun _ => ⟨0, 0, 0⟩)
    now.1.table.fdSize = 10 ∧ Allocation now.2 now.1.table.fdSize ∧
      now.1.table.pfds.length = now.1.table.fdSize ∧ now.1.table.fdCount = (openClients now.2).card + 1 :=
  ⟨by decide, run_allocation .pollServer2 3 (fun _ => ⟨0, 0, 0⟩) (joins 5) (by decide +kernel)⟩

end SocketPrograms.Poll
