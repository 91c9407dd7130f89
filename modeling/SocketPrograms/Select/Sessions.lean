import SocketPrograms.EchoServer.Loops
import SocketPrograms.Select.Readiness

/-! The select server as an echo service. Whatever `select` reports, it serves its clients one after
another: what it does with clients in a run is a row of whole sessions. -/

namespace SocketPrograms.Select
open Lib EchoServer

/-- A client on a listening socket, and what `AcceptConnection` returned for it. -/
structure Session where
  listener : Int
  sock : Int
  client : Client

def callOn (sock : Int) : EchoServer.Call → Call
  | .recv got => .recv sock got
  | .send data result => .send sock data result
  | .close => .close sock

namespace Session

def run (S : Session) : Ended × List EchoServer.Call :=
  EchoServer.handleClient (S.client.map Prod.fst ++ [some []]) (S.client.map Prod.snd)

def calls (S : Session) : List Call :=
  .accept S.listener S.sock :: if S.sock < 0 then [] else S.run.2.map (callOn S.sock)

def Done (S : Session) : Prop := 0 ≤ S.sock ∧ S.run.1 = .returned

end Session

def Call.withClient : Call → Bool
  | .accept _ _ | .recv _ _ | .send _ _ _ => true
  | _ => false

def traffic (calls : List Call) : List Call := calls.filter Call.withClient

/-- All sessions are done, or all but the last, in which the process exits. -/
structure Served (sockets : List Int) (ok : Bool) (sessions : List Session) : Prop where
  listeners : ∀ S ∈ sessions, S.listener ∈ sockets
  done : ok = true → ∀ S ∈ sessions, S.Done
  broken : ok = false → ∃ before last, sessions = before ++ [last] ∧ (∀ S ∈ before, S.Done) ∧ ¬ last.Done

theorem traffic_append (first second : List Call) : traffic (first ++ second) = traffic first ++ traffic second :=
  List.filter_append ..

theorem handleClient_run (sock : Int) (client : Client) :
    let run := EchoServer.handleClient (client.map Prod.fst ++ [some []]) (client.map Prod.snd)
    handleClient sock client = (decide (run.1 = .returned), run.2.map (callOn sock)) := by
  induction client with
  | nil => rfl
  | cons item rest ih =>
    obtain ⟨got, sent⟩ := item
    simp only [EchoServer.handleClient] at ih ⊢
    cases got with
    | none => rfl
    | some buf =>
      simp only [handleClient, List.map_cons, List.cons_append, breakLoop]
      split_ifs
      · rfl
      · rfl
      · rfl
      · rw [ih]
        rfl

theorem traffic_run (S : Session) : traffic (S.run.2.map (callOn S.sock)) = S.run.2.map (callOn S.sock) := by
  rw [traffic, List.filter_eq_self]
  intro call member
  obtain ⟨inner, inside, rfl⟩ := List.mem_map.mp member
  have other := breakLoop_open EXIT_FAILURE _ _ inner inside
  cases inner with
  | recv got => rfl
  | send data result => rfl
  | close => exact absurd rfl other

theorem traffic_session (S : Session) : traffic S.calls = S.calls := by
  have head : traffic [.accept S.listener S.sock] = [.accept S.listener S.sock] := rfl
  rw [Session.calls, ← List.singleton_append, traffic_append, head]
  split_ifs
  · rfl
  · rw [traffic_run]

theorem serveClient_session (S : Session) :
    (serveClient S.listener S.sock S.client).2 = S.calls ∧
      ((serveClient S.listener S.sock S.client).1 = true ↔ S.Done) := by
  have whole : handleClient S.sock S.client = (decide (S.run.1 = .returned), S.run.2.map (callOn S.sock)) :=
    handleClient_run S.sock S.client
  unfold serveClient Session.calls Session.Done
  split_ifs with failed
  · exact ⟨rfl, by simp [failed]⟩
  · rw [whole]
    exact ⟨rfl, by simp [Int.not_lt.mp failed]⟩

namespace Served
variable {sockets : List Int} {sessions : List Session}

theorem none (sockets : List Int) : Served sockets true [] :=
  ⟨by simp, by simp, by simp⟩

theorem append {first : List Session} {ok : Bool} (before : Served sockets true first)
    (after : Served sockets ok sessions) : Served sockets ok (first ++ sessions) := by
  refine ⟨fun S member => ?_, fun right S member => ?_, fun wrong => ?_⟩
  · exact (List.mem_append.mp member).elim (before.listeners S) (after.listeners S)
  · exact (List.mem_append.mp member).elim (before.done rfl S) (after.done right S)
  · obtain ⟨front, last, rfl, done, undone⟩ := after.broken wrong
    refine ⟨first ++ front, last, (List.append_assoc ..).symm, fun S member => ?_, undone⟩
    exact (List.mem_append.mp member).elim (before.done rfl S) (done S)

theorem single {S : Session} (listener : S.listener ∈ sockets) {ok : Bool} (ends : ok = true ↔ S.Done) :
    Served sockets ok [S] := by
  refine ⟨by simpa using listener, fun right => by simpa using ends.mp right, fun wrong => ?_⟩
  refine ⟨[], S, rfl, by simp, fun done => ?_⟩
  rw [ends.mpr done] at wrong
  cases wrong

end Served

theorem serveSockets_sessions (ans : Answers) (sockSet : List Int) (i : Nat) {sockets rest : List Int}
    (inside : ∀ sock ∈ rest, sock ∈ sockets) :
    ∃ sessions, traffic (serveSockets ans sockSet i rest).2 = sessions.flatMap Session.calls ∧
      Served sockets (serveSockets ans sockSet i rest).1 sessions := by
  induction rest generalizing i with
  | nil => exact ⟨[], rfl, .none sockets⟩
  | cons sock rest ih =>
    obtain ⟨later, calls, served⟩ := ih (i + 1) fun other member => inside other (List.mem_cons_of_mem _ member)
    have quiet (calls : List Call) : traffic (.fdIsSet sock :: calls) = traffic calls := rfl
    rw [serveSockets]
    split_ifs with marked
    · have here := serveClient_session ⟨sock, ans.accept i, ans.client i⟩
      have first := Served.single (inside sock (List.mem_cons_self ..)) here.2
      dsimp only at here first ⊢
      split_ifs with returned
      · rw [returned] at first
        refine ⟨_, ?_, first.append served⟩
        rw [List.cons_append, quiet, traffic_append, here.1, traffic_session, calls]
        rfl
      · refine ⟨_, ?_, by simpa [returned] using first⟩
        rw [quiet, here.1, traffic_session]
        exact (List.append_nil _).symm
    · exact ⟨later, calls, served⟩

theorem traffic_fdSets (sockSet fds : List Int) : traffic (fdSets sockSet fds).2 = [] := by
  rw [traffic, List.filter_eq_nil_iff]
  intro call member
  obtain ⟨fd, -, rfl⟩ := fdSets_calls sockSet fds call member
  simp [Call.withClient]

def State.sound : State → Bool
  | .exited => false
  | _ => true

theorem behindSelect_sessions (sockets : List Int) (ans : Answers) :
    ∃ sessions, traffic (behindSelect sockets ans) = sessions.flatMap Session.calls ∧
      Served sockets (turn sockets ans).1.sound sessions := by
  obtain ⟨sessions, calls, served⟩ := serveSockets_sessions ans (select ans (watched sockets)).2 0
    fun sock (member : sock ∈ sockets) => member
  have quiet (stop : Prop) [Decidable stop] :
      traffic (.fdIsSet STDIN_FILENO :: if stop then [.getchar] else []) = [] := by
    split_ifs <;> rfl
  rw [turn_state, behindSelect]
  by_cases idle : (select ans (watched sockets)).1 = 0
  · rw [if_pos idle, if_pos idle]
    exact ⟨[], rfl, .none sockets⟩
  · rw [if_neg idle, if_neg idle]
    refine ⟨sessions, by rw [traffic_append, quiet, List.nil_append, calls], ?_⟩
    split_ifs with returned stop
    · simpa [returned, State.sound] using served
    · simpa [returned, State.sound] using served
    · simpa [returned, State.sound] using served

theorem turn_sessions (sockets : List Int) (ans : Answers) :
    ∃ sessions, traffic (turn sockets ans).2 = sessions.flatMap Session.calls ∧
      Served sockets (turn sockets ans).1.sound sessions := by
  obtain ⟨sessions, calls, served⟩ := behindSelect_sessions sockets ans
  refine ⟨sessions, ?_, served⟩
  rw [turn_calls, traffic_append, traffic_fdSets, List.nil_append, ← calls]
  rfl

def Sequential (sockets : List Int) (past : List Call) (s : State) : Prop :=
  ∃ sessions, traffic past = sessions.flatMap Session.calls ∧ Served sockets s.sound sessions

theorem Sequential.step {sockets : List Int} {past : List Call} {s : State} (sequential : Sequential sockets past s)
    (ans : Answers) :
    Sequential sockets (past ++ ((server sockets).step ans s).2) ((server sockets).step ans s).1 := by
  obtain ⟨sessions, calls, served⟩ := sequential
  cases s with
  | running =>
    obtain ⟨more, calls', served'⟩ := turn_sessions sockets ans
    refine ⟨sessions ++ more, ?_, served.append served'⟩
    rw [List.flatMap_append, ← calls, ← calls', ← traffic_append]
    rfl
  | stopping =>
    have closing : traffic (sockets.map Call.close) = [] := by
      rw [traffic, List.filter_eq_nil_iff]
      intro call member
      obtain ⟨fd, -, rfl⟩ := List.mem_map.mp member
      simp [Call.withClient]
    refine ⟨sessions, ?_, served⟩
    have calls' : ((server sockets).step ans .stopping).2 = sockets.map Call.close := rfl
    rw [calls', traffic_append, closing, List.append_nil, calls]
  | returned | exited =>
    refine ⟨sessions, ?_, served⟩
    rw [← calls]
    exact congrArg traffic (List.append_nil past)

/-- In every run the server's traffic with its clients is that of one whole session behind another,
each of which sends back what it receives; where the process exits, the last of them is broken off. -/
theorem run_sessions (sockets : List Int) (inputs : List Answers) :
    ∃ sessions : List Session,
      traffic ((server sockets).run inputs .running).2 = sessions.flatMap Session.calls ∧
        Served sockets ((server sockets).run inputs .running).1.sound sessions ∧
        ∀ S ∈ sessions, Echoes S.run := by
  have start : Sequential sockets [] .running := ⟨[], rfl, .none sockets⟩
  have whole := (server sockets).invariant_all (Sequential sockets) (fun past s ans now => now.step ans) inputs start
  rw [List.nil_append] at whole
  obtain ⟨sessions, calls, served⟩ := whole
  exact ⟨sessions, calls, served, fun S _ => breakLoop_echoes EXIT_FAILURE _ _⟩

end SocketPrograms.Select
