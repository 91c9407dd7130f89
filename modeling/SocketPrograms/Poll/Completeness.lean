import SocketPrograms.Poll.Pass
import Mathlib.Tactic.IntervalCases

/-! Which descriptors one pass over the array services. The exact condition under which it
services every descriptor that `poll` marked is a count: no marked client may have more
hang-ups before it than entries after it. -/

namespace SocketPrograms.Poll
open Lib Sweep Table

/-- `accept` once if the listener is marked, `recv` once for every marked client. -/
def ServicesEachOnce (listener : Int) (t : Table) (calls : List Call) : Prop :=
  ∀ entry ∈ t.live, entry.readable = true →
    if entry.fd = listener then (acceptFds calls).count listener = 1
    else (recvFds calls).count entry.fd = 1

instance (listener : Int) (t : Table) (calls : List Call) : Decidable (ServicesEachOnce listener t calls) :=
  inferInstanceAs (Decidable (∀ entry ∈ t.live, _))

def hangUpsBefore (answers : Nat → Answers) (t : Table) (k : Nat) : Nat :=
  (List.range k).countP fun j => 0 < j && t.marked j && (answers j).hangsUp

theorem hangUpsBefore_succ (answers : Nat → Answers) (t : Table) (k : Nat) :
    hangUpsBefore answers t (k + 1) = hangUpsBefore answers t k +
      if 0 < k && t.marked k && (answers k).hangsUp then 1 else 0 := by
  simp only [hangUpsBefore, List.range_succ, List.countP_append, List.countP_singleton]

/-- No marked client has more hang-ups before it than entries after it, a connection
accepted in this pass included. -/
def RoomBehind (answers : Nat → Answers) (t : Table) : Prop :=
  ∀ k, 0 < k → t.marked k = true →
    k + hangUpsBefore answers t k < t.fdCount + if Joins answers t then 1 else 0

/-- A failing `accept` does not leave marked clients behind, and the hang-ups do not either. -/
def CompleteWhen (p : Program) (answers : Nat → Answers) (t : Table) : Prop :=
  (CutShort p answers t → ∀ k, 0 < k → t.marked k = false) ∧ RoomBehind answers t

/-! ### The entries a sweep visits -/

theorem sweptFds_eq_take (answers : Nat → Answers) (i : Nat) (entries : List PollFd) :
    ∃ reach, sweptFds answers i entries = ((entries.take reach).filter PollFd.readable).map PollFd.fd ∧
      ∀ j, j < entries.length →
        (j < reach ↔ j + ((entries.take j).zipIdx i).countP (gone answers) < entries.length) := by
  obtain ⟨reach, visited, within⟩ := sweep_eq_take (gone answers) (entries.zipIdx i)
  refine ⟨reach, ?_, ?_⟩
  · rw [sweptFds, visited, zipIdx_take]
    have plain := List.zipIdx_map_fst i (entries.take reach)
    conv_rhs => rw [← plain, List.filter_map, List.map_map]
    rfl
  · intro j bound
    have same := within j (by simpa using bound)
    simpa only [zipIdx_take, List.length_zipIdx] using same

theorem sweptFds_nodup (answers : Nat → Answers) (i : Nat) (entries : List PollFd)
    (distinct : (entries.map PollFd.fd).Nodup) : (sweptFds answers i entries).Nodup := by
  obtain ⟨reach, same, -⟩ := sweptFds_eq_take answers i entries
  rw [same]
  exact ((List.filter_sublist.trans (List.take_sublist _ _)).map _).nodup distinct

theorem mem_sweptFds_iff (answers : Nat → Answers) (i : Nat) {entries : List PollFd}
    (distinct : (entries.map PollFd.fd).Nodup) {j : Nat} {entry : PollFd}
    (here : entries[j]? = some entry) (ready : entry.readable = true) :
    entry.fd ∈ sweptFds answers i entries ↔
      j + ((entries.take j).zipIdx i).countP (gone answers) < entries.length := by
  obtain ⟨reach, same, within⟩ := sweptFds_eq_take answers i entries
  have bound : j < entries.length := (List.getElem?_eq_some_iff.mp here).1
  rw [← within j bound, same]
  constructor
  · intro member
    obtain ⟨other, chosen, equal⟩ := List.mem_map.mp member
    obtain ⟨j', place⟩ := List.mem_iff_getElem?.mp (List.mem_filter.mp chosen).1
    rw [List.getElem?_take] at place
    split at place
    next early =>
      have fds : (entries.map PollFd.fd)[j']? = (entries.map PollFd.fd)[j]? := by
        simp [place, here, equal]
      have position : j' < (entries.map PollFd.fd).length := by
        simpa using (List.getElem?_eq_some_iff.mp place).1
      rw [← (List.getElem?_inj position distinct).mp fds]
      exact early
    next late => cases place
  · intro early
    have present : entry ∈ entries.take reach := by
      apply List.mem_iff_getElem?.mpr
      exact ⟨j, by rw [List.getElem?_take, if_pos early]; exact here⟩
    exact List.mem_map.mpr ⟨entry, List.mem_filter.mpr ⟨present, ready⟩, rfl⟩

theorem sweptFds_subset (answers : Nat → Answers) (i : Nat) (entries : List PollFd) {fd : Int}
    (member : fd ∈ sweptFds answers i entries) :
    ∃ entry ∈ entries, entry.readable = true ∧ entry.fd = fd := by
  obtain ⟨reach, same, -⟩ := sweptFds_eq_take answers i entries
  rw [same] at member
  obtain ⟨entry, chosen, equal⟩ := List.mem_map.mp member
  obtain ⟨present, ready⟩ := List.mem_filter.mp chosen
  exact ⟨entry, List.mem_of_mem_take present, ready, equal⟩

theorem countP_gone_eq (answers : Nat → Answers) {t : Table} {j : Nat} (bound : j ≤ (t.live.drop 1).length) :
    (((clients answers t).take j).zipIdx 1).countP (gone answers) = hangUpsBefore answers t (j + 1) := by
  have front : (clients answers t).take j = (t.live.drop 1).take j := List.take_append_of_le_length bound
  rw [front]
  clear front
  induction j with
  | zero => simp [hangUpsBefore]
  | succ j ih =>
    have inside : j < (t.live.drop 1).length := by omega
    have here : t.live[1 + j]? = some (t.live.drop 1)[j] := by
      rw [← List.getElem?_drop, List.getElem?_eq_getElem inside]
    have mark : t.marked (j + 1) = (t.live.drop 1)[j].readable := by
      rw [marked, Nat.add_comm, here]
      rfl
    have length : ((t.live.drop 1).take j).length = j := by rw [List.length_take]; omega
    rw [List.take_succ_eq_append_getElem inside, List.zipIdx_append, List.countP_append, ih (by omega),
      hangUpsBefore_succ answers t (j + 1), mark, length, Nat.add_comm 1 j]
    simp only [List.zipIdx_singleton, List.countP_singleton, gone]
    simp

section
variable {listener : Int} {answers : Nat → Answers} {t : Table}

theorem length_clients (answers : Nat → Answers) (wf : WellFormed listener t) :
    (clients answers t).length + 1 = t.fdCount + if Joins answers t then 1 else 0 := by
  have positive := wf.positive
  have length := wf.length_live
  unfold clients
  split <;> simp only [List.length_append, List.length_drop, List.length_singleton, List.length_nil] <;> omega

theorem clients_nodup (wf : WellFormed listener t) (fresh : FreshFor t (answers 0)) :
    ((clients answers t).map PollFd.fd).Nodup := by
  have old : ((t.live.drop 1).map PollFd.fd).Nodup :=
    ((List.drop_sublist 1 t.live).map _).nodup wf.distinct
  unfold clients
  split
  next joins =>
    have new : (answers 0).accept ∉ t.fds := by
      rcases fresh with failed | ⟨-, new⟩
      · have := joins.2
        omega
      · exact new
    rw [List.map_append, List.nodup_append]
    refine ⟨old, List.nodup_singleton _, ?_⟩
    intro fd member other single same
    rw [List.map_singleton, List.mem_singleton] at single
    have present : fd ∈ t.fds := ((List.drop_sublist 1 t.live).map _).subset member
    rw [same, single] at present
    exact new present
  next alone => simpa using old

theorem clients_getElem? {k : Nat} {entry : PollFd} (client : 0 < k) (here : t.live[k]? = some entry) :
    (clients answers t)[k - 1]? = some entry := by
  have bound : k < t.live.length := (List.getElem?_eq_some_iff.mp here).1
  have inside : k - 1 < (t.live.drop 1).length := by rw [List.length_drop]; omega
  rw [clients, List.getElem?_append_left inside, List.getElem?_drop, ← here]
  congr 1
  omega

theorem client_swept_iff (wf : WellFormed listener t) (fresh : FreshFor t (answers 0)) {k : Nat}
    {entry : PollFd} (client : 0 < k) (here : t.live[k]? = some entry) (ready : entry.readable = true) :
    entry.fd ∈ sweptFds answers 1 (clients answers t) ↔
      k + hangUpsBefore answers t k < t.fdCount + if Joins answers t then 1 else 0 := by
  have bound : k < t.live.length := (List.getElem?_eq_some_iff.mp here).1
  have inside : k - 1 ≤ (t.live.drop 1).length := by rw [List.length_drop]; omega
  have back : k - 1 + 1 = k := by omega
  rw [mem_sweptFds_iff answers 1 (clients_nodup wf fresh) (clients_getElem? client here) ready,
    countP_gone_eq answers inside, back, ← length_clients answers wf]
  omega

end

/-- One pass over the array ends, and it services every marked descriptor exactly once if
and only if `CompleteWhen` holds. -/
theorem scanLoop_complete_iff (p : Program) {listener : Int} (answers : Nat → Answers) {t : Table}
    (wf : WellFormed listener t) (fresh : FreshFor t (answers 0)) :
    (scanLoop p listener answers t).1.scanning = false ∧
      (ServicesEachOnce listener t (scanLoop p listener answers t).2 ↔ CompleteWhen p answers t) := by
  refine ⟨scan_ends answers wf (fun _ => fresh) _ (by simp), ?_⟩
  obtain ⟨recvs, accepts, -⟩ := scanLoop_calls p answers wf fresh
  constructor
  · intro services
    -- a marked client is received from once, so the loop was not cut short and reached it
    have served : ∀ k, 0 < k → t.marked k = true → ¬CutShort p answers t ∧
        k + hangUpsBefore answers t k < t.fdCount + if Joins answers t then 1 else 0 := by
      intro k client mark
      obtain ⟨entry, here, ready⟩ := marked_iff.mp mark
      have other : entry.fd ≠ listener := by
        intro same
        have first := (wf.fd_eq_listener_iff (fds_getElem? here)).mp same
        omega
      have once := services entry (List.mem_iff_getElem?.mpr ⟨k, here⟩) ready
      rw [if_neg other, recvs] at once
      by_cases cut : CutShort p answers t
      · simp [cut] at once
      · rw [if_neg cut] at once
        have member : entry.fd ∈ sweptFds answers 1 (clients answers t) :=
          List.count_pos_iff.mp (by omega)
        exact ⟨cut, (client_swept_iff wf fresh client here ready).mp member⟩
    refine ⟨fun cut k client => ?_, fun k client mark => (served k client mark).2⟩
    cases mark : t.marked k with
    | false => rfl
    | true => exact absurd cut (served k client mark).1
  · rintro ⟨cut, room⟩ entry member ready
    obtain ⟨k, here⟩ := List.mem_iff_getElem?.mp member
    have mark : t.marked k = true := marked_iff.mpr ⟨entry, here, ready⟩
    have own := wf.fd_eq_listener_iff (fds_getElem? here)
    by_cases first : k = 0
    · subst first
      rw [if_pos (own.mpr rfl), accepts, if_pos mark]
      simp
    · have client : 0 < k := by omega
      have whole : ¬CutShort p answers t := by
        intro short
        rw [cut short k client] at mark
        cases mark
      rw [if_neg (fun same => first (own.mp same)), recvs, if_neg whole]
      exact List.count_eq_one_of_mem (sweptFds_nodup answers 1 _ (clients_nodup wf fresh))
        ((client_swept_iff wf fresh client here ready).mpr (room k client mark))

def twoReady : Table where
  pfds := [⟨3, POLLIN, 0⟩, ⟨4, POLLIN, POLLIN⟩, ⟨5, POLLIN, POLLIN⟩, ⟨0, 0, 0⟩, ⟨0, 0, 0⟩]
  fdCount := 3
  fdSize := 5

theorem twoReady_wellFormed : WellFormed 3 twoReady where
  positive := by decide
  bounded := by decide
  allocated := by decide
  head := by decide
  distinct := by decide

def onlyStays (index : Nat) (k : Nat) : Answers where
  poll := none
  accept := -1
  recv := if k = index then some [65] else some []
  send := fun _ => 1
  junk := fun _ => ⟨0, 0, 0⟩

/-- Client 4 hangs up, the entry of client 5 moves to index 1, and the loop goes on at index 2. -/
theorem scanLoop_skips_client :
    WellFormed 3 twoReady ∧ FreshFor twoReady (onlyStays 2 0) ∧
      ¬ServicesEachOnce 3 twoReady (scanLoop .pollServer 3 (onlyStays 2) twoReady).2 ∧
      ¬ServicesEachOnce 3 twoReady (scanLoop .pollServer2 3 (onlyStays 2) twoReady).2 :=
  ⟨twoReady_wellFormed, Or.inl rfl, by decide, by decide⟩

theorem scanLoop_serves_both :
    ServicesEachOnce 3 twoReady (scanLoop .pollServer2 3 (onlyStays 1) twoReady).2 := by
  refine (scanLoop_complete_iff .pollServer2 (onlyStays 1) twoReady_wellFormed (Or.inl rfl)).2.mpr ⟨?_, ?_⟩
  · intro cut
    exact absurd cut.2.1 (by decide)
  · intro k client mark
    obtain ⟨entry, here, -⟩ := marked_iff.mp mark
    have bound : k < 3 := (List.getElem?_eq_some_iff.mp here).1
    interval_cases k <;> decide

end SocketPrograms.Poll
