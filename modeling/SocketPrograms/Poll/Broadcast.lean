import SocketPrograms.Poll.Invariant

/-! The loop over the recipients in `poll_server.c`. It reads the destination at the index
of the sender, so every one of its calls of `send` goes back to the sender. -/

namespace SocketPrograms.Poll
open Lib Table

def Call.chunkFor (fd : Int) : Call → Option (List UInt8)
  | .send dest data _ => if dest = fd then some data else none
  | _ => none

def sentTo (fd : Int) (calls : List Call) : List (List UInt8) := calls.filterMap (Call.chunkFor fd)

/-- A chunk goes once to every other client, to no descriptor twice and not to the listener. -/
structure Delivered (listener sender : Int) (t : Table) (data : List UInt8) (calls : List Call) : Prop where
  others : ∀ fd ∈ t.fds, fd ≠ listener → fd ≠ sender → sentTo fd calls = [data]
  atMostOnce : ∀ fd, (sentTo fd calls).length ≤ 1
  notListener : sentTo listener calls = []

theorem broadcast_eq {listener : Int} {ans : Answers} {i : Nat} {t : Table} {entry : PollFd}
    (cell : t.pfds[i]? = some entry) (client : entry.fd ≠ listener) :
    PollServer.broadcast listener ans i t =
      (List.range t.fdCount).map fun j => .send entry.fd ans.data (ans.send j) := by
  rw [PollServer.broadcast, List.map_eq_flatMap]
  simp only [cell, ne_eq, client, not_false_eq_true, ↓reduceIte]

theorem sentTo_sender {listener : Int} {ans : Answers} {i : Nat} {t : Table} {entry : PollFd}
    (cell : t.pfds[i]? = some entry) (client : entry.fd ≠ listener) :
    sentTo entry.fd (PollServer.broadcast listener ans i t) = List.replicate t.fdCount ans.data := by
  have each : (Call.chunkFor entry.fd ∘ fun j => Call.send entry.fd ans.data (ans.send j)) =
      fun _ => some ans.data := by
    funext j
    simp [Call.chunkFor]
  rw [broadcast_eq cell client, sentTo, List.filterMap_map, each, List.filterMap_eq_map']
  simp

/-- Whatever the array, the sender gets its own chunk as often as there are entries, hence
at least twice. -/
theorem broadcast_not_delivered (listener : Int) (junk : Nat → PollFd) (inputs : List Answers)
    (fresh : (server .pollServer listener).Along (AcceptFresh listener) inputs [] (start listener junk))
    (ans : Answers) (i : Nat) (sender : Int) :
    let s := ((server .pollServer listener).run inputs (start listener junk)).1
    s.phase = .scan i → 0 < i → s.table.marked i = true → s.table.fds[i]? = some sender →
      0 < ans.nbytes →
        ¬Delivered listener sender s.table ans.data ((server .pollServer listener).step ans s).2 := by
  intro s phase client mark place chunk delivered
  have wf : WellFormed listener s.table := (reachable_representation .pollServer listener junk inputs fresh).wf
  obtain ⟨entry, here, ready⟩ := marked_iff.mp mark
  have inside : i < s.table.fdCount := by
    rw [← wf.length_live]
    exact (List.getElem?_eq_some_iff.mp here).1
  have cell : s.table.pfds[i]? = some entry := by rw [← getElem?_live inside]; exact here
  have own : entry.fd = sender := Option.some.inj ((fds_getElem? here).symm.trans place)
  have other : entry.fd ≠ listener := fun same => by
    have first := (wf.fd_eq_listener_iff (fds_getElem? here)).mp same
    omega
  have state : s = ⟨s.table, .scan i⟩ := by rw [← phase]
  have calls : ((server .pollServer listener).step ans s).2 =
      .recv entry.fd ans.recv :: PollServer.broadcast listener ans i s.table := by
    rw [state, step_scan inside]
    simp [Program.visit, PollServer.visit, cell, ready, other, Int.not_le.mpr chunk]
  have sends : sentTo entry.fd ((server .pollServer listener).step ans s).2 =
      List.replicate s.table.fdCount ans.data := by
    rw [calls, ← sentTo_sender cell other, sentTo, List.filterMap_cons]
    rfl
  have once := delivered.atMostOnce entry.fd
  rw [sends, List.length_replicate] at once
  omega

def twoJoin : List Answers :=
  let ans (reported : Nat) (newfd : Int) : Answers := {
    poll := some fun k => if k = reported then POLLIN else 0
    accept := newfd
    recv := some [65]
    send := fun _ => 1
    junk := fun _ => ⟨0, 0, 0⟩ }
  [ans 0 (-1), ans 0 4, ans 0 (-1), ans 0 (-1), ans 0 (-1), ans 0 5, ans 0 (-1), ans 0 (-1), ans 0 (-1),
    ans 1 (-1), ans 1 (-1)]

/-- The byte goes three times to its sender 4 and not at all to client 5. -/
theorem broadcast_returns_to_sender :
    let reached := (server .pollServer 3).run twoJoin (start 3 fun _ => ⟨0, 0, 0⟩)
    let calls := ((server .pollServer 3).step ⟨none, -1, some [65], fun _ => 1, fun _ => ⟨0, 0, 0⟩⟩ reached.1).2
    reached.1.table.fds = [3, 4, 5] ∧ calls.head? = some (.recv 4 (some [65])) ∧
      sentTo 4 calls = [[65], [65], [65]] ∧ sentTo 5 calls = [] ∧
        ¬Delivered 3 4 reached.1.table [65] calls := by
  refine ⟨by decide, by decide, by decide, by decide, fun delivered => ?_⟩
  exact absurd (delivered.others 5 (by decide) (by decide) (by decide)) (by decide)

theorem broadcast_not_delivered_two :
    ¬Delivered 3 4 ((server .pollServer 3).run twoJoin (start 3 fun _ => ⟨0, 0, 0⟩)).1.table [65]
      ((server .pollServer 3).step ⟨none, -1, some [65], fun _ => 1, fun _ => ⟨0, 0, 0⟩⟩
        ((server .pollServer 3).run twoJoin (start 3 fun _ => ⟨0, 0, 0⟩)).1).2 :=
  broadcast_not_delivered 3 (fun _ => ⟨0, 0, 0⟩) twoJoin
    ⟨Or.inl rfl, Or.inr (by decide), Or.inl rfl, Or.inl rfl, Or.inl rfl, Or.inr (by decide), Or.inl rfl,
      Or.inl rfl, Or.inl rfl, Or.inl rfl, Or.inl rfl, trivial⟩
    ⟨none, -1, some [65], fun _ => 1, fun _ => ⟨0, 0, 0⟩⟩ 1 4 (by decide) (by decide) (by decide) (by decide)
    (by decide)

end SocketPrograms.Poll
