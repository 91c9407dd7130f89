import Mathlib.Algebra.Order.BigOperators.Group.Finset
import Mathlib.Data.Fintype.Basic
import SocketPrograms.EchoSystem.Apart
import SocketPrograms.EchoSystem.Completion

/-! Over reliable streams every client of the server is served, in whatever order `accept` takes
them, as long as the server and all clients have their turns. -/

namespace SocketPrograms.EchoSystem.Service
open Lib CString
open EchoClient (LF)

variable {κ : Type*} [DecidableEq κ] (S : Service κ)

def sends (s : State κ) : Party κ → Bytes
  | .client k => (S.run k).sends (s.conn k) .client
  | .server =>
    match s.main with
    | .serve k => (S.run k).sends (s.conn k) .server
    | .accept | .exited _ => []

/-- No call fails, `recv` returns bytes where there are any, `send` takes all of its, and `accept`
returns a connection when one is pending. -/
def Reliable (_ : List (Event κ)) (s : State κ) (turn : Turn κ) : Prop :=
  (∃ count ∈ turn.answer, 0 < count ∧ (S.sends s turn.party).length ≤ count) ∧
    ∃ k ∈ turn.next, ∀ j, s.pending j = true → s.pending k = true

instance [Fintype κ] (past : List (Event κ)) (s : State κ) (turn : Turn κ) : Decidable (S.Reliable past s turn) :=
  inferInstanceAs (Decidable ((∃ count ∈ turn.answer, 0 < count ∧ (S.sends s turn.party).length ≤ count) ∧
    ∃ k ∈ turn.next, ∀ j, s.pending j = true → s.pending k = true))

def hasRoom (capacity : Greeting.Party → Nat) (turn : Turn κ) (s : State κ) : Bool :=
  match turn.party with
  | .client k => (S.run k).hasRoom capacity (s.conn k) .client
  | .server =>
    match s.main with
    | .serve k => (S.run k).hasRoom capacity (s.conn k) .server
    | .accept | .exited _ => true

/-- The server and its clients, where a `send` waits until there is room. -/
def bounded (capacity : Greeting.Party → Nat) : Machine (Turn κ) (State κ) (Event κ) :=
  S.machine.gate (S.hasRoom capacity)

structure Sound (past : List (Event κ)) (s : State κ) : Prop extends Orderly S past s where
  healthy : ∀ k, Healthy (S.run k) (history k past) (s.conn k)
  alive : ∀ how, s.main ≠ .exited how
  behind : ∀ k, s.pending k = false → s.main = .serve k ∨ (s.conn k).server = .ended .returned ∧ .close k ∈ past

def AllServed (s : State κ) : Prop := s.main = .accept ∧ ∀ k, s.pending k = false ∧ Finished (s.conn k)

theorem Server.failure_returned {server : Server} {how : EchoServer.Ended} (failure : server.failure = some how) :
    server = .ended how ∧ how ≠ .returned := by
  unfold Server.failure at failure
  split at failure
  · cases failure
  · cases failure
  · split_ifs at failure with returned
    exact ⟨congrArg Server.ended (Option.some.inj failure), Option.some.inj failure ▸ returned⟩

theorem start_sound : Sound S [] start where
  toOrderly := start_orderly S
  healthy k := healthy_start (S.run k)
  alive _ ended := by cases ended
  behind _ absent := by cases absent

theorem Sound.not_pending {past : List (Event κ)} {s : State κ} (sound : Sound S past s) {k : κ}
    (busy : s.main = .serve k) : s.pending k = false := by
  have mine : holder past = some k := sound.held (some k) (by rw [busy]; rfl)
  rw [← Bool.not_eq_true]
  exact fun waiting => sound.unseen k waiting (accept_of_holder mine)

omit [DecidableEq κ] in
theorem Reliable.on {past : List (Event κ)} {s : State κ} {turn : Turn κ} (reliable : S.Reliable past s turn) {k : κ}
    {party : Greeting.Party} (same : S.sends s turn.party = (S.run k).sends (s.conn k) party) (before : List Seen) :
    (S.run k).Reliable before (s.conn k) ⟨party, turn.answer⟩ := by
  obtain ⟨count, answer, positive, all⟩ := reliable.1
  rw [same] at all
  exact ⟨count, answer, positive, all⟩

theorem Sound.step {past : List (Event κ)} {s : State κ} (sound : Sound S past s) {turn : Turn κ}
    (reliable : S.Reliable past s turn) : Sound S (past ++ (S.step turn s).2) (S.step turn s).1 := by
  have orderly := sound.toOrderly.step S turn
  have healthy := sound.healthy
  have alive := sound.alive
  have behind := sound.behind
  have moves := step_moves S turn s
  generalize (S.step turn s).2 = events at moves orderly ⊢
  generalize (S.step turn s).1 = s' at moves orderly ⊢
  cases moves with
  | waits | gone =>
    rw [List.append_nil]
    exact sound
  | @client k party =>
    have same : S.sends s turn.party = (S.run k).sends (s.conn k) .client := by
      rw [party]
      rfl
    have next := (healthy k).step (reliable.on S same (history k past))
    refine ⟨orderly, conn_put healthy next, alive, fun j absent => ?_⟩
    apply (behind j absent).imp_right
    intro ⟨ended, closed⟩
    refine ⟨?_, List.mem_append_left _ closed⟩
    by_cases own : j = k
    · subst own
      rw [State.put_self, client_server]
      exact ended
    · rw [State.put_other s k _ own]
      exact ended
  | refused party idle failure =>
    obtain ⟨k, next, -⟩ := reliable.2
    rw [failure] at next
    cases next
  | @accepted k party idle pending =>
    refine ⟨orderly, fun j => by simpa [history] using healthy j, fun how ended => (by cases ended), fun j absent => ?_⟩
    by_cases own : j = k
    · exact Or.inl (congrArg Main.serve own.symm)
    · have absent : Function.update s.pending k false j = false := absent
      rw [Function.update_of_ne own] at absent
      rcases behind j absent with busy | ⟨ended, closed⟩
      · rw [idle] at busy
        cases busy
      · exact Or.inr ⟨ended, List.mem_append_left _ closed⟩
  | @closed k party busy returned =>
    refine ⟨orderly, fun j => by simpa [history] using healthy j, fun how ended => (by cases ended), fun j absent => ?_⟩
    rcases behind j absent with held | ⟨ended, closed⟩
    · rw [busy] at held
      cases held
      exact Or.inr ⟨returned, List.mem_append_right _ (List.mem_singleton_self _)⟩
    · exact Or.inr ⟨ended, List.mem_append_left _ closed⟩
  | @served k party busy working =>
    have same : S.sends s turn.party = (S.run k).sends (s.conn k) .server := by rw [party, sends, busy]
    have next := (healthy k).step (reliable.on S same (history k past))
    refine ⟨orderly, conn_put healthy next, alive, fun j absent => ?_⟩
    by_cases own : j = k
    · exact Or.inl (own ▸ busy)
    · rw [State.put_other s k _ own]
      exact (behind j absent).imp_right fun ⟨ended, closed⟩ => ⟨ended, List.mem_append_left _ closed⟩
  | @failed k how party busy failure =>
    have same : S.sends s turn.party = (S.run k).sends (s.conn k) .server := by rw [party, sends, busy]
    have next := (healthy k).step (reliable.on S same (history k past))
    obtain ⟨ended, failed⟩ := Server.failure_returned failure
    exact absurd (next.orderly how ended).1 failed

/-! ### Progress -/

def Stuck (s : State κ) : Party κ → Prop
  | .client k => EchoSystem.Stuck (s.conn k) .client
  | .server =>
    match s.main with
    | .accept => ∀ k, s.pending k = false
    | .serve k => EchoSystem.Stuck (s.conn k) .server ∧ (s.conn k).server ≠ .ended .returned
    | .exited _ => True

def State.due (s : State κ) (k : κ) : Nat := if s.pending k then 2 else if s.main = .serve k then 1 else 0

@[simp] theorem State.put_due (s : State κ) (k : κ) (next : System) (j : κ) : (s.put k next).due j = s.due j := rfl

def cost (s : State κ) (k : κ) : Nat := rank (S.run k) (s.conn k) + s.due k

variable [Fintype κ]

def total (s : State κ) : Nat := ∑ k, S.cost s k

theorem total_lt {s s' : State κ} (others : ∀ j, S.cost s' j ≤ S.cost s j) {k : κ}
    (mine : S.cost s' k < S.cost s k) : S.total s' < S.total s :=
  Finset.sum_lt_sum (fun j _ => others j) ⟨k, Finset.mem_univ k, mine⟩

theorem total_put {s : State κ} {k : κ} {next : System} (drop : rank (S.run k) next < rank (S.run k) (s.conn k)) :
    S.total (s.put k next) < S.total s := by
  have mine : S.cost (s.put k next) k < S.cost s k := by
    simp only [cost, State.put_self, State.put_due]
    omega
  apply total_lt S (fun j => ?_) mine
  by_cases own : j = k
  · subst own
    exact le_of_lt mine
  · simp only [cost, State.put_other s k next own, State.put_due, le_refl]

theorem Sound.moves {past : List (Event κ)} {s : State κ} (sound : Sound S past s) {turn : Turn κ}
    (reliable : S.Reliable past s turn) :
    (S.step turn s).1 = s ∧ Stuck s turn.party ∨ S.total (S.step turn s).1 < S.total s := by
  have healthy := sound.healthy
  have moves := step_moves S turn s
  generalize (S.step turn s).2 = events at moves
  generalize (S.step turn s).1 = s' at moves ⊢
  cases moves with
  | gone party ended => exact absurd ended (sound.alive _)
  | refused party idle failure =>
    obtain ⟨k, next, -⟩ := reliable.2
    rw [failure] at next
    cases next
  | @waits k party idle next absent =>
    obtain ⟨j, result, some_pending⟩ := reliable.2
    rw [next] at result
    cases result
    refine Or.inl ⟨rfl, ?_⟩
    rw [party, Stuck, idle]
    intro i
    rw [← Bool.not_eq_true]
    intro waiting
    rw [some_pending i waiting] at absent
    cases absent
  | @client k party =>
    have turned : S.sends s turn.party = (S.run k).sends (s.conn k) .client := by
      rw [party]
      rfl
    have here := reliable.on S turned (history k past)
    rcases (step_reliably (healthy k) here).moves (healthy k) with ⟨same, stuck⟩ | drop
    · refine Or.inl ⟨?_, by rw [party]; exact stuck⟩
      have still : ((S.run k).clientStep turn.answer (s.conn k)).1 = s.conn k := same
      rw [still, State.put_same]
    · exact Or.inr (total_put S drop)
  | @accepted k party idle pending =>
    refine Or.inr (total_lt S (k := k) (fun j => ?_) ?_)
    · by_cases own : j = k
      · simp [cost, State.due, own, pending]
      · simp [cost, State.due, own, idle, Ne.symm own]
    · simp [cost, State.due, pending]
  | @closed k party busy returned =>
    have absent := sound.not_pending S busy
    refine Or.inr (total_lt S (k := k) (fun j => ?_) ?_)
    · simp only [cost, State.due, reduceCtorEq, if_false]
      split_ifs <;> omega
    · simp [cost, State.due, absent, busy]
  | @served k party busy working =>
    have same : S.sends s turn.party = (S.run k).sends (s.conn k) .server := by rw [party, sends, busy]
    have here := reliable.on S same (history k past)
    rcases (step_reliably (healthy k) here).moves (healthy k) with ⟨still, stuck⟩ | drop
    · refine Or.inl ⟨?_, ?_⟩
      · have still : ((S.run k).serverStep turn.answer (s.conn k)).1 = s.conn k := still
        rw [still, State.put_same]
      · rw [party, Stuck, busy]
        exact ⟨stuck, working⟩
    · exact Or.inr (total_put S drop)
  | @failed k how party busy failure =>
    have same : S.sends s turn.party = (S.run k).sends (s.conn k) .server := by rw [party, sends, busy]
    have next := (healthy k).step (reliable.on S same (history k past))
    obtain ⟨ended, failed⟩ := Server.failure_returned failure
    exact absurd (next.orderly how ended).1 failed

omit [Fintype κ] in
/-- Before the end some call does not wait: the one that `accept` is for, or one on the connection
that the server is at. -/
theorem Sound.enabled {past : List (Event κ)} {s : State κ} (sound : Sound S past s) (unfinished : ¬AllServed s) :
    ∃ party, ¬Stuck s party := by
  by_contra stuck
  push Not at stuck
  have server := stuck .server
  cases main : s.main with
  | accept =>
    rw [Stuck, main] at server
    refine unfinished ⟨main, fun k => ⟨server k, ?_⟩⟩
    rcases sound.behind k (server k) with busy | ⟨ended, -⟩
    · rw [main] at busy
      cases busy
    · exact ⟨((sound.healthy k).orderly _ ended).2, ended⟩
  | serve k =>
    rw [Stuck, main] at server
    obtain ⟨party, free⟩ := (sound.healthy k).enabled fun finished => server.2 finished.2
    cases party with
    | client => exact free (stuck (.client k))
    | server => exact free server.1
  | exited how => exact sound.alive how main

theorem progress : S.machine.Progress S.Reliable Turn.party (Sound S) S.total AllServed := by
  apply @Machine.Progress.of_waits _ _ _ _ _ _ _ _ _ _ Stuck
  · exact fun _ _ _ sound reliable => sound.step S reliable
  · exact fun _ _ _ _ sound reliable => sound.moves S reliable
  · exact fun _ _ sound => sound.enabled S
  · intro past s turn sound reliable served
    obtain ⟨idle, done⟩ := served
    have moves := step_moves S turn s
    change AllServed (S.step turn s).1
    generalize (S.step turn s).2 = events at moves
    generalize (S.step turn s).1 = s' at moves ⊢
    cases moves with
    | @client k party =>
      have still : ((S.run k).clientStep turn.answer (s.conn k)).1 = s.conn k := by
        simp [Run.clientStep, (done k).2.1]
      rw [still, State.put_same]
      exact ⟨idle, done⟩
    | waits | gone => exact ⟨idle, done⟩
    | refused party idle failure =>
      obtain ⟨k, next, -⟩ := reliable.2
      rw [failure] at next
      cases next
    | @accepted k party idle pending => exact absurd ((done k).1.symm.trans pending) (by decide)
    | closed party busy | served party busy | failed party busy => exact absurd (idle.symm.trans busy) (by simp)

omit [Fintype κ] in
theorem Sound.hasRoom {past : List (Event κ)} {s : State κ} (sound : Sound S past s) {capacity : Greeting.Party → Nat}
    (fits : ∀ k party, (S.run k).echoStr.length ≤ capacity party) (turn : Turn κ) :
    S.hasRoom capacity turn s = true := by
  unfold Service.hasRoom
  cases turn.party with
  | client k => exact (sound.flow k).hasRoom (fits k) .client
  | server =>
    cases s.main with
    | serve k => exact (sound.flow k).hasRoom (fits k) .server
    | accept | exited how => rfl

/-- After more rounds than this, in each of which the server and all clients have a turn, every
client has printed its own echo string and the server has closed its connection. -/
theorem all_clients_served (capacity : Greeting.Party → Nat)
    (fits : ∀ k party, (S.run k).echoStr.length ≤ capacity party) (rounds : List (List (Turn κ))) :
    (∀ round ∈ rounds, Covers Turn.party round) →
      (S.bounded capacity).Along S.Reliable rounds.flatten [] start →
        ∑ k, (3 * (S.run k).echoStr.length + 4) < rounds.length →
          let now := (S.bounded capacity).run rounds.flatten start
          now.1.main = .accept ∧ ∀ k, (now.1.conn k).client = .done ∧ .close k ∈ now.2 ∧
            printed (history k now.2) = (S.run k).client.banner ++ (S.run k).echoStr ++ [LF] ∧
            EchoServer.accepted (serverCalls (history k now.2)) = (S.run k).echoStr := by
  intro covered slowly enough
  obtain ⟨along, same⟩ := Machine.gate_free (progress S).keeps (fun _ _ turn sound _ => sound.hasRoom S fits turn)
    (start_sound S) slowly
  rw [bounded, same]
  intro now
  have begins : S.total start = ∑ k, (3 * (S.run k).echoStr.length + 4) := by
    simp [total, cost, State.due, rank, start, Run.start]
  have served : AllServed now.1 := (progress S).rounds covered (start_sound S) along (by omega)
  have sound : Sound S now.2 now.1 := by
    have kept := S.machine.invariant (Sound S) (fun _ _ _ sound reliable => sound.step S reliable) (start_sound S) along
    simpa using kept
  refine ⟨served.1, fun k => ⟨(served.2 k).2.1, ?_, (sound.flow k).finished (served.2 k).2⟩⟩
  rcases sound.behind k (served.2 k).1 with busy | ⟨-, closed⟩
  · rw [served.1] at busy
    cases busy
  · exact closed

theorem ho_clean : NUL ∉ [(104 : UInt8), 111] := by decide

theorem ho_short : [(104 : UInt8), 111].length < 2 ^ 32 := by decide

def ho : Run := ⟨ipv4Client, [104, 111], ho_clean, ipv4Client_exact ho_short, 1, Nat.one_pos, 1⟩

def hiHo : Bool → Run
  | false => hi
  | true => ho

theorem hiHo_limit (k : Bool) : (hiHo k).limit = 1 := by cases k <;> rfl

theorem hiHo_status (k : Bool) : (hiHo k).status = 1 := by cases k <;> rfl

theorem hiHo_fits (k : Bool) : (hiHo k).echoStr.length ≤ 2 := by cases k <;> exact Nat.le_refl 2

def both : Service Bool := ⟨hiHo, 1, 1, hiHo_limit, hiHo_status⟩

def bothRound (next : Bool) : List (Turn Bool) :=
  [⟨.server, some 2, some next⟩, ⟨.client false, some 2, some false⟩, ⟨.client true, some 2, some false⟩]

theorem bothRound_covers (next : Bool) : Covers Turn.party (bothRound next) := by
  intro party
  cases party with
  | client k => cases k <;> simp [bothRound]
  | server => simp [bothRound]

def bothRounds : List (List (Turn Bool)) := bothRound true :: List.replicate 20 (bothRound false)

theorem all_clients_served_both :
    let now := (both.bounded fun _ => 2).run bothRounds.flatten start
    now.1.main = .accept ∧ ∀ k, (now.1.conn k).client = .done ∧ .close k ∈ now.2 ∧
      printed (history k now.2) = (both.run k).client.banner ++ (both.run k).echoStr ++ [LF] ∧
      EchoServer.accepted (serverCalls (history k now.2)) = (both.run k).echoStr := by
  refine all_clients_served both (fun _ => 2) (fun k _ => hiHo_fits k) bothRounds ?_ (by decide +kernel) (by decide)
  intro round member
  rw [bothRounds, List.mem_cons, List.mem_replicate] at member
  rcases member with rfl | ⟨-, rfl⟩ <;> exact bothRound_covers _

end SocketPrograms.EchoSystem.Service
