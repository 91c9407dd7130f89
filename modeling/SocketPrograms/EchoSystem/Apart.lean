import SocketPrograms.EchoSystem.Service

/-! What the clients of one server have to do with each other: they wait. The server serves one
connection at a time, and on each of them everything is as if there were no other. -/

namespace SocketPrograms.EchoSystem.Service
open Lib CString
open EchoClient (LF)
open EchoServer (breakLoop)

variable {κ : Type*} [DecidableEq κ] (S : Service κ)

/-- The server accepts only while it holds no connection, and each connection once. It calls
`recv` and `send` only on the connection it holds, and closes that one when its loop has returned. -/
def InTurn (before : List (Event κ)) : Event κ → Prop
  | .accept none => holder before = none
  | .accept (some k) => holder before = none ∧ .accept (some k) ∉ before
  | .close k => holder before = some k ∧
      ∃ recvs sends, breakLoop S.status recvs sends = (.returned, serverCalls (history k before))
  | .on k (.server _) => holder before = some k
  | .on _ (.sent _) | .on _ (.got _) | .on _ (.printed _) => True

/-! ### Steps -/

inductive Moves (turn : Turn κ) (s : State κ) : State κ → List (Event κ) → Prop where
  | client {k : κ} (party : turn.party = .client k) :
      Moves turn s (s.put k ((S.run k).clientStep turn.answer (s.conn k)).1)
        (((S.run k).clientStep turn.answer (s.conn k)).2.map (.on k))
  | refused (party : turn.party = .server) (idle : s.main = .accept) (failure : turn.next = none) :
      Moves turn s (abandon (.systemMsg "accept() failed" S.status) s) [.accept none]
  | waits {k : κ} (party : turn.party = .server) (idle : s.main = .accept) (next : turn.next = some k)
      (absent : s.pending k = false) : Moves turn s s []
  | accepted {k : κ} (party : turn.party = .server) (idle : s.main = .accept) (pending : s.pending k = true) :
      Moves turn s { s with pending := Function.update s.pending k false, main := .serve k } [.accept (some k)]
  | closed {k : κ} (party : turn.party = .server) (busy : s.main = .serve k)
      (returned : (s.conn k).server = .ended .returned) : Moves turn s { s with main := .accept } [.close k]
  | served {k : κ} (party : turn.party = .server) (busy : s.main = .serve k)
      (working : (s.conn k).server ≠ .ended .returned) :
      Moves turn s (s.put k ((S.run k).serverStep turn.answer (s.conn k)).1)
        (((S.run k).serverStep turn.answer (s.conn k)).2.map (.on k))
  | failed {k : κ} {how : EchoServer.Ended} (party : turn.party = .server) (busy : s.main = .serve k)
      (failure : ((S.run k).serverStep turn.answer (s.conn k)).1.server.failure = some how) :
      Moves turn s (abandon how (s.put k ((S.run k).serverStep turn.answer (s.conn k)).1))
        (((S.run k).serverStep turn.answer (s.conn k)).2.map (.on k))
  | gone {how : EchoServer.Ended} (party : turn.party = .server) (ended : s.main = .exited how) : Moves turn s s []

theorem step_moves (turn : Turn κ) (s : State κ) : Moves S turn s (S.step turn s).1 (S.step turn s).2 := by
  obtain ⟨party, answer, next⟩ := turn
  cases party with
  | client k => exact .client rfl
  | server =>
    obtain ⟨conn, pending, main⟩ := s
    cases main with
    | accept =>
      cases next with
      | none => exact .refused rfl rfl rfl
      | some k =>
        simp only [step, serverTurn]
        split_ifs with waiting
        · exact .accepted rfl rfl waiting
        · exact .waits rfl rfl rfl (Bool.eq_false_iff.mpr waiting)
    | serve k =>
      simp only [step, serverTurn]
      split_ifs with returned
      · exact .closed rfl rfl returned
      · cases failure : ((S.run k).serverStep answer (conn k)).1.server.failure with
        | none => exact .served rfl rfl returned
        | some how => exact .failed rfl rfl failure
    | exited how => exact .gone rfl rfl

def Main.holder : Main κ → Option (Option κ)
  | .accept => some none
  | .serve k => some (some k)
  | .exited _ => none

/-- Every connection goes its own way, the calls of the server are in turn, and a connection that
is not accepted has not been touched. -/
structure Orderly (past : List (Event κ)) (s : State κ) : Prop where
  flow : ∀ k, Flow (S.run k) (history k past) (s.conn k)
  inTurn : Each S.InTurn past
  unseen : ∀ k, s.pending k = true → .accept (some k) ∉ past
  held : ∀ held ∈ s.main.holder, holder past = held
  untouched : ∀ held ∈ s.main.holder, ∀ k, s.pending k = true → (s.conn k).server = .receive

theorem client_silent (run : Run) (answer : Option Nat) (s : System) (call : EchoServer.Call) :
    .server call ∉ (run.clientStep answer s).2 := by
  unfold Run.clientStep
  split
  · split
    · simp
    · split_ifs <;> simp
  · split
    · simp
    · simp
    · split_ifs <;> simp
  · simp
  · simp

theorem client_server (run : Run) (answer : Option Nat) (s : System) :
    (run.clientStep answer s).1.server = s.server := by
  unfold Run.clientStep
  split
  · split
    · rfl
    · split_ifs <;> rfl
  · split
    · rfl
    · rfl
    · split_ifs <;> rfl
  · rfl
  · rfl

theorem inTurn_on {past : List (Event κ)} {k : κ} {seen : List Seen} (inTurn : Each S.InTurn past)
    (held : ∀ call, .server call ∈ seen → holder past = some k) : Each S.InTurn (past ++ seen.map (.on k)) := by
  rw [each_append]
  refine ⟨inTurn, ?_⟩
  intro before event after split
  obtain ⟨first, rest, rfl, rfl, later⟩ := List.map_eq_append_iff.mp split
  obtain ⟨next, last, rfl, rfl, -⟩ := List.map_eq_cons_iff.mp later
  cases next with
  | server call =>
    change holder (past ++ first.map (.on k)) = some k
    rw [holder_on]
    exact held call (by simp)
  | sent | got | printed => trivial

theorem conn_put {P : κ → List Seen → System → Prop} {past : List (Event κ)} {s : State κ}
    (all : ∀ k, P k (history k past) (s.conn k)) {k : κ} {seen : List Seen} {next : System}
    (moved : P k (history k past ++ seen) next) (j : κ) :
    P j (history j (past ++ seen.map (.on k))) ((s.put k next).conn j) := by
  rw [history_append]
  by_cases own : j = k
  · subst own
    rw [history_own, State.put_self]
    exact moved
  · rw [history_other (Ne.symm own), List.append_nil, State.put_other s k next own]
    exact all j

theorem flow_abandoned {run : Run} {past : List Seen} {s : System} (flow : Flow run past s)
    (untouched : s.server = .receive) : Flow run past { s with server := .ended .waiting } where
  serving := by
    have serving := flow.serving
    rw [untouched] at serving
    generalize serverCalls past = calls at serving ⊢
    cases serving with
    | receive even loop level => exact .ended loop
  client := flow.client
  request := flow.request
  reply := flow.reply

theorem Orderly.abandoned {past : List (Event κ)} {s : State κ} (how : EchoServer.Ended)
    (flow : ∀ k, Flow (S.run k) (history k past) (s.conn k)) (inTurn : Each S.InTurn past)
    (unseen : ∀ k, s.pending k = true → .accept (some k) ∉ past)
    (untouched : ∀ k, s.pending k = true → (s.conn k).server = .receive) : Orderly S past (abandon how s) where
  flow k := by
    rw [abandon_conn]
    split_ifs with waiting
    · exact flow_abandoned (flow k) (untouched k waiting)
    · exact flow k
  inTurn := inTurn
  unseen := unseen
  held _ member := by cases member
  untouched _ member := by cases member

theorem start_orderly : Orderly S [] start where
  flow k := flow_start (S.run k)
  inTurn := each_nil _
  unseen _ _ := List.not_mem_nil
  held _ member := Option.some.inj member
  untouched _ _ _ _ := rfl

omit [DecidableEq κ] in
theorem not_mem_on {past : List (Event κ)} {k j : κ} {seen : List Seen} (unseen : .accept (some k) ∉ past) :
    Event.accept (some k) ∉ past ++ seen.map (.on j) := by
  simp [unseen]

theorem untouched_put {s : State κ} {k : κ} {next : System}
    (untouched : ∀ j, s.pending j = true → (s.conn j).server = .receive)
    (mine : s.pending k = true → next.server = .receive) (j : κ) (waiting : s.pending j = true) :
    ((s.put k next).conn j).server = .receive := by
  by_cases own : j = k
  · subst own
    rw [State.put_self]
    exact mine waiting
  · rw [State.put_other s k next own]
    exact untouched j waiting

theorem Orderly.step {past : List (Event κ)} {s : State κ} (orderly : Orderly S past s) (turn : Turn κ) :
    Orderly S (past ++ (S.step turn s).2) (S.step turn s).1 := by
  have flow := orderly.flow
  have inTurn := orderly.inTurn
  have unseen := orderly.unseen
  have held := orderly.held
  have untouched := orderly.untouched
  have moves := step_moves S turn s
  generalize (S.step turn s).2 = events at moves ⊢
  generalize (S.step turn s).1 = s' at moves ⊢
  cases moves with
  | waits | gone =>
    rw [List.append_nil]
    exact orderly
  | @client k party =>
    have silent := client_silent (S.run k) turn.answer (s.conn k)
    refine ⟨conn_put flow (step_flow (flow k) ⟨.client, turn.answer⟩),
      inTurn_on S inTurn fun call made => absurd made (silent call),
      fun j waiting => not_mem_on (unseen j waiting), fun h member => ?_, fun h member => ?_⟩
    · rw [holder_on]
      exact held h member
    · apply untouched_put (untouched h member)
      intro waiting
      rw [client_server]
      exact untouched h member k waiting
  | refused party idle failure =>
    have free : holder past = none := held none (by rw [idle]; rfl)
    apply Orderly.abandoned
    · intro k
      simpa [history] using flow k
    · simpa [inTurn, InTurn] using free
    · intro k waiting
      simpa using unseen k waiting
    · exact untouched none (by rw [idle]; rfl)
  | @accepted k party idle pending =>
    have free : holder past = none := held none (by rw [idle]; rfl)
    have other {j : κ} (waiting : Function.update s.pending k false j = true) : j ≠ k ∧ s.pending j = true := by
      by_cases own : j = k
      · subst own
        rw [Function.update_self] at waiting
        cases waiting
      · rw [Function.update_of_ne own] at waiting
        exact ⟨own, waiting⟩
    refine ⟨fun j => by simpa [history] using flow j, ?_, fun j waiting => ?_, fun h member => ?_,
      fun h member j waiting => ?_⟩
    · simpa [inTurn, InTurn] using ⟨free, unseen k pending⟩
    · simpa [(other waiting).1] using unseen j (other waiting).2
    · rw [← Option.some.inj member, holder_append]
      rfl
    · exact untouched none (by rw [idle]; rfl) j (other waiting).2
  | @closed k party busy returned =>
    have mine : holder past = some k := held (some k) (by rw [busy]; rfl)
    have loop : ∃ recvs sends, breakLoop S.status recvs sends = (.returned, serverCalls (history k past)) := by
      have loop := (flow k).serving.loop
      rw [returned, S.fails k] at loop
      exact loop
    refine ⟨fun j => by simpa [history] using flow j, ?_, fun j waiting => by simpa using unseen j waiting,
      fun h member => ?_, fun h member => untouched (some k) (by rw [busy]; rfl)⟩
    · simpa [inTurn, InTurn, mine] using loop
    · rw [← Option.some.inj member, holder_append]
      rfl
  | @served k party busy working =>
    have mine : holder past = some k := held (some k) (by rw [busy]; rfl)
    refine ⟨conn_put flow (step_flow (flow k) ⟨.server, turn.answer⟩), inTurn_on S inTurn fun _ _ => mine,
      fun j waiting => not_mem_on (unseen j waiting), fun h member => ?_, fun h member => ?_⟩
    · rw [holder_on]
      exact held h member
    · apply untouched_put (untouched h member)
      intro waiting
      exact absurd (accept_of_holder mine) (unseen k waiting)
  | @failed k how party busy failure =>
    have mine : holder past = some k := held (some k) (by rw [busy]; rfl)
    apply Orderly.abandoned
    · exact conn_put flow (step_flow (flow k) ⟨.server, turn.answer⟩)
    · exact inTurn_on S inTurn fun _ _ => mine
    · exact fun j waiting => not_mem_on (unseen j waiting)
    · apply untouched_put (untouched (some k) (by rw [busy]; rfl))
      intro waiting
      exact absurd (accept_of_holder mine) (unseen k waiting)

end SocketPrograms.EchoSystem.Service
