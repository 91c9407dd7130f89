import SocketPrograms.Poll.Broadcast
import SocketPrograms.Poll.Capacity
import SocketPrograms.Poll.Echo
import SocketPrograms.Poll.Pass

/-! Everything that the two servers send along a run, computed from what they receive. Both give
a chunk back to the client it came from: `poll_server2.c` once, `poll_server.c` as often as there
are entries in its array at the time. -/

namespace SocketPrograms.Poll
open Lib Table

def sends (calls : List Call) : List (Int × List UInt8) :=
  calls.filterMap fun
    | .send fd data _ => some (fd, data)
    | _ => none

def Program.copies : Program → List Call → Nat
  | .pollServer, before => (openClients before).card + 1
  | .pollServer2, _ => 1

def Call.reflect (p : Program) (before : List Call) : Call → List (Int × List UInt8)
  | .recv fd (some data) => if data = [] then [] else List.replicate (p.copies before) (fd, data)
  | _ => []

def reflections (p : Program) : List Call → List Call → List (Int × List UInt8)
  | _, [] => []
  | before, call :: rest => call.reflect p before ++ reflections p (before ++ [call]) rest

@[simp] theorem sends_append (first second : List Call) : sends (first ++ second) = sends first ++ sends second :=
  List.filterMap_append

theorem reflections_append (p : Program) (before first second : List Call) :
    reflections p before (first ++ second) = reflections p before first ++ reflections p (before ++ first) second := by
  induction first generalizing before with
  | nil => simp [reflections]
  | cons call rest ih => simp [reflections, ih, List.append_assoc]

theorem reflections_none (p : Program) {calls : List Call}
    (none : ∀ fd data, Call.recv fd (some data) ∈ calls → data = []) (before : List Call) :
    reflections p before calls = [] := by
  induction calls generalizing before with
  | nil => rfl
  | cons call rest ih =>
    have later := ih (fun fd data member => none fd data (List.mem_cons_of_mem _ member)) (before ++ [call])
    rw [reflections, later, List.append_nil]
    cases call with
    | recv fd got =>
      cases got with
      | none => rfl
      | some data => exact if_pos (none fd data (List.mem_cons_self ..))
    | poll | accept | send | close => rfl

theorem entry_ne_listener {listener : Int} {t : Table} (wf : WellFormed listener t) {i : Nat} {entry : PollFd}
    (here : t.live[i]? = some entry) (client : 0 < i) : entry.fd ≠ listener := by
  intro same
  have first := (wf.fd_eq_listener_iff (fds_getElem? here)).mp same
  omega

theorem sends_replies (p : Program) {listener : Int} {past : List Call} {s : State}
    (rep : Representation listener past s) (ans : Answers) {i : Nat} {entry : PollFd}
    (here : s.table.live[i]? = some entry) (client : 0 < i) :
    sends (p.replies listener ans i s.table entry.fd) = List.replicate (p.copies past) (entry.fd, ans.data) := by
  cases p with
  | pollServer =>
    have inside : i < s.table.fdCount := by
      rw [← rep.wf.length_live]
      exact (List.getElem?_eq_some_iff.mp here).1
    have cell : s.table.pfds[i]? = some entry := by rw [← getElem?_live inside]; exact here
    have other := entry_ne_listener rep.wf here client
    rw [Program.replies, broadcast_eq cell other, sends, List.filterMap_map, Program.copies, ← rep.fdCount_eq]
    simp
  | pollServer2 => rfl

theorem replies_reflect_nothing (p : Program) (listener : Int) (ans : Answers) (i : Nat) (t : Table) (fd : Int)
    (before : List Call) : reflections p before (p.replies listener ans i t fd) = [] := by
  apply reflections_none
  intro source data member
  obtain ⟨dest, chunk, result, sent⟩ := replies_send p member
  cases sent

/-- A step without a chunk sends nothing, and one with a chunk makes the calls for a client. -/
theorem step_chunk {p : Program} {listener : Int} {past : List Call} {s : State} {ans : Answers}
    (rep : Representation listener past s) (fresh : AcceptFresh listener past s ans) :
    let calls := ((server p listener).step ans s).2
    (sends calls = [] ∧ ∀ fd data, Call.recv fd (some data) ∈ calls → data = []) ∨
      ∃ i entry, s.table.live[i]? = some entry ∧ 0 < i ∧ ans.hangsUp = false ∧
        calls = .recv entry.fd ans.recv :: p.replies listener ans i s.table entry.fd := by
  obtain ⟨s', calls, step, moves⟩ := step_moves p rep.wf fun _ => (rep.freshFor fresh).low
  rw [step]
  cases moves with
  | quiet waits safe => exact Or.inl ⟨rfl, by simp⟩
  | polled waiting => exact Or.inl ⟨rfl, by simp⟩
  | @visited i entry s' calls busy here effect =>
    cases effect with
    | idle quiet => exact Or.inl ⟨rfl, by simp⟩
    | accepted ready own ok sane count grown => exact Or.inl ⟨rfl, by simp⟩
    | refused ready own failed => exact Or.inl ⟨rfl, by simp⟩
    | left ready client gone sane count removed =>
      refine Or.inl ⟨rfl, fun fd data member => ?_⟩
      obtain ⟨-, got⟩ : fd = entry.fd ∧ some data = ans.recv := by simpa using member
      have empty : ans.nbytes ≤ 0 := by simpa [Answers.hangsUp] using gone
      rw [Answers.nbytes, ← got] at empty
      apply List.eq_nil_of_length_eq_zero
      have length : (data.length : Int) ≤ 0 := empty
      omega
    | data ready client stays => exact Or.inr ⟨i, entry, here, client, stays, rfl⟩

theorem step_sends {p : Program} {listener : Int} {past : List Call} {s : State} {ans : Answers}
    (rep : Representation listener past s) (fresh : AcceptFresh listener past s ans) :
    sends ((server p listener).step ans s).2 = reflections p past ((server p listener).step ans s).2 := by
  rcases step_chunk rep fresh with ⟨silent, none⟩ | ⟨i, entry, here, client, stays, calls⟩
  · rw [silent, reflections_none p none]
  · obtain ⟨got, size, positive⟩ := Answers.recv_of_data stays
    have solid : ans.data ≠ [] := by
      apply List.ne_nil_of_length_pos
      omega
    have reflected : Call.reflect p past (.recv entry.fd ans.recv) =
        List.replicate (p.copies past) (entry.fd, ans.data) := by
      rw [got]
      exact if_neg solid
    rw [calls, reflections, reflected, replies_reflect_nothing, List.append_nil, ← sends_replies p rep ans here client]
    rfl

theorem step_targets {p : Program} {listener : Int} {past : List Call} {s : State} {ans : Answers}
    (rep : Representation listener past s) (fresh : AcceptFresh listener past s ans) :
    ∀ sent ∈ sends ((server p listener).step ans s).2, sent.1 ≠ listener := by
  intro sent member
  rcases step_chunk rep fresh with ⟨silent, -⟩ | ⟨i, entry, here, client, -, calls⟩
  · rw [silent] at member
    exact absurd member List.not_mem_nil
  · rw [calls] at member
    change sent ∈ sends (p.replies listener ans i s.table entry.fd) at member
    rw [sends_replies p rep ans here client] at member
    rw [List.eq_of_mem_replicate member]
    exact entry_ne_listener rep.wf here client

/-- At every moment of every run what the server has sent is what it received, chunk by chunk and
each back to where it came from: once in `poll_server2.c`, and in `poll_server.c` once for every
entry of the array. Nothing goes to the listener. -/
theorem run_sends (p : Program) (listener : Int) (junk : Nat → PollFd) (inputs : List Answers)
    (fresh : (server p listener).Along (AcceptFresh listener) inputs [] (start listener junk)) :
    sends ((server p listener).run inputs (start listener junk)).2 =
      reflections p [] ((server p listener).run inputs (start listener junk)).2 ∧
    ∀ sent ∈ sends ((server p listener).run inputs (start listener junk)).2, sent.1 ≠ listener := by
  have kept := (server p listener).invariant
    (fun past s => Representation listener past s ∧ sends past = reflections p [] past ∧
      ∀ sent ∈ sends past, sent.1 ≠ listener)
    (fun past s ans inv fresh => by
      obtain ⟨rep, same, clients⟩ := inv
      refine ⟨rep.step (p := p) (fun _ => fresh), ?_, fun sent member => ?_⟩
      · rw [sends_append, reflections_append, same, step_sends rep fresh, List.nil_append]
      · rw [sends_append, List.mem_append] at member
        exact member.elim (clients sent) (step_targets rep fresh sent))
    ⟨start_representation listener junk, rfl, by simp [sends]⟩ fresh
  simpa using kept.2

def joinAndSend : List Answers := twoJoin ++ [⟨none, -1, some [65], fun _ => 1, fun _ => ⟨0, 0, 0⟩⟩]

theorem joinAndSend_fresh :
    (server .pollServer 3).Along (AcceptFresh 3) joinAndSend [] (start 3 fun _ => ⟨0, 0, 0⟩) := by
  decide +kernel

theorem run_sends_two :
    sends ((server .pollServer 3).run joinAndSend (start 3 fun _ => ⟨0, 0, 0⟩)).2 = List.replicate 3 (4, [65]) ∧
      sends ((server .pollServer 3).run joinAndSend (start 3 fun _ => ⟨0, 0, 0⟩)).2 =
        reflections .pollServer [] ((server .pollServer 3).run joinAndSend (start 3 fun _ => ⟨0, 0, 0⟩)).2 := by
  refine ⟨by decide +kernel, ?_⟩
  exact (run_sends .pollServer 3 (fun _ => ⟨0, 0, 0⟩) joinAndSend joinAndSend_fresh).1

end SocketPrograms.Poll
