import SocketPrograms.Poll.Broadcast

/-! `poll_server2.c` against `poll_server.c`, of which it is a revision. Their calls of `send` apart,
the two do the same on the same answers, until a call of `accept` fails. -/

namespace SocketPrograms.Poll
open Lib Table

def Call.isSend : Call → Bool
  | .send _ _ _ => true
  | _ => false

def withoutSends (calls : List Call) : List Call := calls.filter (!·.isSend)

def untilRefused (listener : Int) : List Call → List Call
  | [] => []
  | call :: rest => if call = .accept listener (-1) then [call] else call :: untilRefused listener rest

@[simp] theorem withoutSends_append (first second : List Call) :
    withoutSends (first ++ second) = withoutSends first ++ withoutSends second := List.filter_append ..

theorem untilRefused_append {listener : Int} {first : List Call} (welcome : .accept listener (-1) ∉ first)
    (second : List Call) : untilRefused listener (first ++ second) = first ++ untilRefused listener second := by
  induction first with
  | nil => rfl
  | cons call rest ih =>
    have other : call ≠ .accept listener (-1) := fun same => welcome (same ▸ List.mem_cons_self ..)
    have later := ih fun member => welcome (List.mem_cons_of_mem _ member)
    rw [List.cons_append, untilRefused, if_neg other, later, List.cons_append]

theorem withoutSends_broadcast (listener : Int) (ans : Answers) (i : Nat) (t : Table) :
    withoutSends (PollServer.broadcast listener ans i t) = [] ∧
      ∀ result, Call.accept listener result ∉ PollServer.broadcast listener ans i t := by
  have sends : ∀ call ∈ PollServer.broadcast listener ans i t, call.isSend = true := by
    intro call member
    obtain ⟨j, -, here⟩ := List.mem_flatMap.mp member
    split at here
    next => cases here
    next dest cell =>
      split_ifs at here
      · rw [List.mem_singleton.mp here]
        rfl
      · cases here
  refine ⟨?_, fun result member => absurd (sends _ member) (by simp [Call.isSend])⟩
  rw [withoutSends, List.filter_eq_nil_iff]
  intro call member
  simp [sends call member]

/-- The same state and the same calls, those of `send` apart; or the `accept` of both fails, and
only the second program exits. -/
inductive Alike (listener : Int) (t : Table) : State × List Call → State × List Call → Prop where
  | same {s : State} {calls calls' : List Call} (welcome : .accept listener (-1) ∉ calls)
      (agree : withoutSends calls' = withoutSends calls) : Alike listener t (s, calls) (s, calls')
  | refused (s : State) : Alike listener t (s, [.accept listener (-1)]) (⟨t, .exited⟩, [.accept listener (-1)])

theorem visit_alike (listener : Int) {ans : Answers} (sane : ans.accept = -1 ∨ 0 ≤ ans.accept) (i : Nat)
    (t : Table) : Alike listener t (PollServer.visit listener ans i t) (PollServer2.visit listener ans i t) := by
  unfold PollServer.visit PollServer2.visit
  cases t.pfds[i]? with
  | none => exact .same (by simp) rfl
  | some entry =>
    dsimp only
    by_cases ready : entry.readable = true
    · rw [if_pos ready, if_pos ready]
      by_cases own : entry.fd = listener
      · rw [if_pos own, if_pos own, PollServer2.acceptConn]
        rcases sane with failed | success
        · rw [if_pos failed, if_pos (by omega), failed]
          exact .refused _
        · rw [if_neg (by omega), if_neg (by omega)]
          unfold welcome
          cases addToPfds t ans.accept ans.junk with
          | none | some t' => exact .same (by simp; omega) rfl
      · rw [if_neg own, if_neg own, PollServer2.handler]
        by_cases gone : ans.nbytes ≤ 0
        · rw [if_pos gone, if_pos gone]
          unfold hangUp
          cases delFromPfds t i with
          | none | some t' => exact .same (by simp) rfl
        · rw [if_neg gone, if_neg gone]
          obtain ⟨silent, none⟩ := withoutSends_broadcast listener ans i t
          refine .same ?_ ?_
          · simpa using none (-1)
          · change withoutSends [.recv entry.fd ans.recv, .send entry.fd ans.data (ans.send 0)] =
              withoutSends ([.recv entry.fd ans.recv] ++ PollServer.broadcast listener ans i t)
            rw [withoutSends_append, silent]
            rfl
    · rw [if_neg ready, if_neg ready]
      exact .same (by simp) rfl

theorem step_alike (listener : Int) {ans : Answers} (sane : ans.accept = -1 ∨ 0 ≤ ans.accept) (s : State) :
    Alike listener s.table ((server .pollServer listener).step ans s)
      ((server .pollServer2 listener).step ans s) := by
  obtain ⟨t, phase⟩ := s
  cases phase with
  | poll =>
    simp only [server, step]
    cases ans.poll with
    | none | some revents => exact .same (by simp) rfl
  | scan i =>
    simp only [server, step]
    split_ifs
    · exact visit_alike listener sane i t
    · exact .same (by simp) rfl
  | exited | crashed => exact .same List.not_mem_nil rfl

theorem run_exited (p : Program) (listener : Int) (inputs : List Answers) (t : Table) :
    (server p listener).run inputs ⟨t, .exited⟩ = (⟨t, .exited⟩, []) := by
  induction inputs with
  | nil => rfl
  | cons ans rest ih =>
    have stays : (server p listener).step ans ⟨t, .exited⟩ = (⟨t, .exited⟩, []) := rfl
    rw [Machine.run_cons, stays, ih]
    rfl

/-- On the same answers `poll_server2.c` makes the calls of `poll_server.c`, those of `send` apart,
up to the first `accept` that fails: there it exits, and the other goes on. As long as none has
failed the two are in the same state. -/
theorem servers_agree (listener : Int) (inputs : List Answers) (s : State)
    (sane : ∀ ans ∈ inputs, ans.accept = -1 ∨ 0 ≤ ans.accept) :
    let one := (server .pollServer listener).run inputs s
    let two := (server .pollServer2 listener).run inputs s
    withoutSends two.2 = untilRefused listener (withoutSends one.2) ∧
      (.accept listener (-1) ∉ one.2 → two.1 = one.1) ∧
      (.accept listener (-1) ∈ one.2 → two.1.phase = .exited) := by
  induction inputs generalizing s with
  | nil => exact ⟨rfl, fun _ => rfl, fun member => by cases member⟩
  | cons ans rest ih =>
    have later := fun s => ih s fun other member => sane other (List.mem_cons_of_mem _ member)
    have alike := step_alike listener (sane ans (List.mem_cons_self ..)) s
    intro one two
    simp only [one, two, Machine.run_cons]
    generalize (server .pollServer listener).step ans s = first at alike ⊢
    generalize (server .pollServer2 listener).step ans s = second at alike ⊢
    cases alike with
    | @same s' calls calls' welcome agree =>
      obtain ⟨calls_agree, stays, ends⟩ := later s'
      have none : .accept listener (-1) ∉ withoutSends calls := by
        intro member
        exact welcome (List.mem_of_mem_filter member)
      dsimp only
      refine ⟨?_, fun never => ?_, fun once => ?_⟩
      · rw [withoutSends_append, withoutSends_append, untilRefused_append none, agree, calls_agree]
      · exact stays fun member => never (List.mem_append_right _ member)
      · exact ends ((List.mem_append.mp once).resolve_left welcome)
    | refused s' =>
      dsimp only
      rw [run_exited]
      refine ⟨?_, fun never => absurd (List.mem_append_left _ (List.mem_singleton_self _)) never, fun _ => rfl⟩
      rw [List.append_nil, withoutSends_append]
      exact (if_pos rfl).symm

def refusedLater : List Answers :=
  let ans (reported : Nat) (newfd : Int) : Answers := {
    poll := some fun k => if k = reported then POLLIN else 0
    accept := newfd
    recv := some [65]
    send := fun _ => 1
    junk := fun _ => ⟨0, 0, 0⟩ }
  twoJoin ++ [ans 1 (-1), ans 1 (-1), ans 1 (-1), ans 0 (-1), ans 0 (-1), ans 1 (-1), ans 1 (-1), ans 1 (-1),
    ans 1 (-1)]

theorem servers_agree_refused :
    let one := (server .pollServer 3).run refusedLater (start 3 fun _ => ⟨0, 0, 0⟩)
    let two := (server .pollServer2 3).run refusedLater (start 3 fun _ => ⟨0, 0, 0⟩)
    (withoutSends two.2 = untilRefused 3 (withoutSends one.2) ∧
      (.accept 3 (-1) ∉ one.2 → two.1 = one.1) ∧ (.accept 3 (-1) ∈ one.2 → two.1.phase = .exited)) ∧
        (withoutSends two.2).length < (withoutSends one.2).length := by
  intro one two
  refine ⟨servers_agree 3 refusedLater (start 3 fun _ => ⟨0, 0, 0⟩) ?_, by decide +kernel⟩
  decide +kernel

end SocketPrograms.Poll
