import SocketPrograms.EchoSystem.Correct

/-! Over reliable streams the client and the server get to their ends, however their calls
interleave and however the streams are cut, as long as both of them have their turns. -/

namespace SocketPrograms.EchoSystem
open Lib CString
open Greeting (Turn Party recv recv_got recv_blocked send_all)
open EchoClient (LF)

structure Healthy (run : Run) (past : List Seen) (s : System) : Prop extends Flow run past s where
  alive : ∀ status, s.client ≠ .exited status
  orderly : ∀ how, s.server = .ended how → how = .returned ∧ s.client = .done

inductive Reliably (run : Run) (s : System) : Party → System → Prop where
  | asked (first : s.client = .sendEcho) :
      Reliably run s .client { s with client := (run.loop 0).1, toServer := s.toServer ++ run.echoStr }
  | starved {total : Nat} (loop : s.client = .receive total) (dry : s.toClient = []) : Reliably run s .client s
  | got {total total' : Nat} {bytes rest : Bytes} (loop : s.client = .receive total)
      (split : s.toClient = bytes ++ rest) (solid : bytes ≠ []) :
      Reliably run s .client { s with client := (run.loop total').1, toClient := rest }
  | done (last : s.client = .done) : Reliably run s .client s
  | idle (head : s.server = .receive) (dry : s.toServer = []) (waits : s.client ≠ .done) : Reliably run s .server s
  | closed (head : s.server = .receive) (dry : s.toServer = []) (last : s.client = .done) :
      Reliably run s .server { s with server := .ended .returned }
  | taken {bytes rest : Bytes} (head : s.server = .receive) (split : s.toServer = bytes ++ rest) (solid : bytes ≠ []) :
      Reliably run s .server { s with server := .sendBack bytes, toServer := rest }
  | given {buf : Bytes} (busy : s.server = .sendBack buf) :
      Reliably run s .server { s with server := .receive, toClient := s.toClient ++ buf }
  | returned (ended : s.server = .ended .returned) : Reliably run s .server s

theorem Healthy.terminated {run : Run} {past : List Seen} {s : System} (healthy : Healthy run past s) :
    s.client.terminated = true ↔ s.client = .done := by
  have alive := healthy.alive
  cases client : s.client with
  | sendEcho | receive total => simp [Client.terminated]
  | done => simp [Client.terminated]
  | exited status => exact absurd client (alive status)

theorem client_reliably {run : Run} {past : List Seen} {s : System} (healthy : Healthy run past s) {count : Nat}
    (positive : 0 < count) (all : (run.sends s .client).length ≤ count) :
    Reliably run s .client (run.clientStep (some count) s).1 := by
  cases client : s.client with
  | sendEcho =>
    have whole : Greeting.send run.echoStr (some count) = some run.echoStr :=
      send_all (by simpa [Run.sends, client] using all)
    have moved : Reliably run s .client _ := .asked client
    simpa [Run.clientStep, client, whole] using moved
  | receive total =>
    have connected : s.server.hungUp = false := by
      cases server : s.server with
      | receive | sendBack buf => rfl
      | ended how =>
        have last := (healthy.orderly how server).2
        rw [client] at last
        cases last
    by_cases dry : s.toClient = []
    · have blocked : recv (EchoClient.BUF_SIZE - 1) [] false (some count) = .blocked := recv_blocked count
      have moved : Reliably run s .client s := .starved client dry
      simpa [Run.clientStep, client, dry, connected, blocked] using moved
    · obtain ⟨bytes, rest, received, split, solid, -⟩ :=
        recv_got dry s.server.hungUp (show 0 < EchoClient.BUF_SIZE - 1 by decide) positive
      simpa [Run.clientStep, client, received, solid] using Reliably.got client split solid
  | done =>
    have moved : Reliably run s .client s := .done client
    simpa [Run.clientStep, client] using moved
  | exited status => exact absurd client (healthy.alive status)

theorem server_reliably {run : Run} {past : List Seen} {s : System} (healthy : Healthy run past s) {count : Nat}
    (positive : 0 < count) (all : (run.sends s .server).length ≤ count) :
    Reliably run s .server (run.serverStep (some count) s).1 := by
  cases server : s.server with
  | receive =>
    by_cases dry : s.toServer = []
    · by_cases last : s.client = .done
      · have ended := healthy.terminated.mpr last
        have moved : Reliably run s .server _ := .closed server dry last
        simpa [Run.serverStep, server, recv, dry, ended] using moved
      · have waits : s.client.terminated = false := by
          rw [← Bool.not_eq_true, healthy.terminated]
          exact last
        have moved : Reliably run s .server s := .idle server dry last
        simpa [Run.serverStep, server, recv, dry, waits] using moved
    · obtain ⟨bytes, rest, received, split, solid, -⟩ :=
        recv_got dry s.client.terminated run.positive positive
      have moved : Reliably run s .server _ := .taken server split solid
      simpa [Run.serverStep, server, received, solid] using moved
  | sendBack buf =>
    have whole : Greeting.send buf (some count) = some buf := send_all (by simpa [Run.sends, server] using all)
    have moved : Reliably run s .server _ := .given server
    simpa [Run.serverStep, server, whole] using moved
  | ended how =>
    have returned := (healthy.orderly how server).1
    subst returned
    have moved : Reliably run s .server s := .returned server
    simpa [Run.serverStep, server] using moved

theorem step_reliably {run : Run} {past : List Seen} {s : System} (healthy : Healthy run past s) {turn : Turn}
    (reliable : run.Reliable past s turn) : Reliably run s turn.party (run.step turn s).1 := by
  obtain ⟨count, answer, positive, all⟩ := reliable
  obtain ⟨party, _⟩ := turn
  cases answer
  cases party with
  | client => exact client_reliably healthy positive all
  | server => exact server_reliably healthy positive all

theorem loop_orderly (run : Run) (total : Nat) :
    (run.loop total).1 ≠ .sendEcho ∧ ∀ status, (run.loop total).1 ≠ .exited status := by
  unfold Run.loop
  split_ifs <;> simp

theorem Healthy.step {run : Run} {past : List Seen} {s : System} (healthy : Healthy run past s) {turn : Turn}
    (reliable : run.Reliable past s turn) : Healthy run (past ++ (run.step turn s).2) (run.step turn s).1 := by
  have alive := healthy.alive
  have orderly := healthy.orderly
  have moved := step_reliably healthy reliable
  have flow := step_flow healthy.toFlow turn
  generalize (run.step turn s).1 = s' at moved flow ⊢
  generalize turn.party = party at moved
  refine ⟨flow, ?_, ?_⟩
  · intro status
    cases moved with
    | asked | got => exact (loop_orderly run _).2 status
    | starved | done | idle | closed | taken | given | returned => exact alive status
  · intro how
    cases moved with
    | asked first => exact fun ended => absurd ((orderly how ended).2.symm.trans first) (by simp)
    | got loop => exact fun ended => absurd ((orderly how ended).2.symm.trans loop) (by simp)
    | starved | done | idle | returned => exact orderly how
    | closed head dry last => exact fun ended => ⟨(Server.ended.inj ended).symm, last⟩
    | taken | given => exact fun ended => by cases ended

/-- A bound on the calls that still move bytes or end a program. Every byte of the echo string
is sent, taken, given back and got. -/
def rank (run : Run) (s : System) : Nat :=
  (if s.client = .sendEcho then 3 * run.echoStr.length + 1 else 0) + 3 * s.toServer.length +
    (match s.server with
    | .receive => 1
    | .sendBack buf => 2 * buf.length + 1
    | .ended _ => 0) + s.toClient.length

def Finished (s : System) : Prop := s.client = .done ∧ s.server = .ended .returned

theorem Serving.solid {status : Nat} {calls : List EchoServer.Call} {buf : Bytes}
    (serving : Serving status calls (.sendBack buf)) : buf ≠ [] := by
  cases serving with
  | sendBack even loop level solid => exact solid

theorem Serving.level {status : Nat} {calls : List EchoServer.Call} (serving : Serving status calls .receive) :
    EchoServer.accepted calls = EchoServer.received calls := by
  cases serving with
  | receive even loop level => exact level

def Stuck (s : System) : Party → Prop
  | .client => s.client = .done ∨ s.toClient = [] ∧ ∃ total, s.client = .receive total
  | .server => s.server = .ended .returned ∨ s.server = .receive ∧ s.toServer = [] ∧ s.client ≠ .done

theorem Reliably.moves {run : Run} {past : List Seen} {s s' : System} {party : Party} (healthy : Healthy run past s)
    (moved : Reliably run s party s') : s' = s ∧ Stuck s party ∨ rank run s' < rank run s := by
  have later := fun total => (loop_orderly run total).1
  cases moved with
  | starved loop dry => exact Or.inl ⟨rfl, Or.inr ⟨dry, _, loop⟩⟩
  | done last => exact Or.inl ⟨rfl, Or.inl last⟩
  | idle head dry waits => exact Or.inl ⟨rfl, Or.inr ⟨head, dry, waits⟩⟩
  | returned ended => exact Or.inl ⟨rfl, Or.inl ended⟩
  | asked first =>
    apply Or.inr
    simp only [rank, first, later, if_true, if_false, List.length_append]
    omega
  | got loop split solid =>
    have positive := List.length_pos_of_ne_nil solid
    apply Or.inr
    simp only [rank, loop, later, split, reduceCtorEq, if_false, List.length_append]
    omega
  | closed head dry last =>
    apply Or.inr
    simp only [rank, head]
    omega
  | taken head split solid =>
    have positive := List.length_pos_of_ne_nil solid
    apply Or.inr
    simp only [rank, head, split, List.length_append]
    omega
  | @given buf busy =>
    have positive := List.length_pos_of_ne_nil (busy ▸ healthy.serving).solid
    apply Or.inr
    simp only [rank, busy, List.length_append]
    omega

/-- Before the end one of the two has a call that does not wait: when both streams are dry and
the server holds nothing, the client has the whole string. -/
theorem Healthy.enabled {run : Run} {past : List Seen} {s : System} (healthy : Healthy run past s)
    (unfinished : ¬Finished s) : ∃ party, ¬Stuck s party := by
  by_contra stuck
  push Not at stuck
  have server := stuck .server
  rcases stuck .client with last | ⟨dry, total, loop⟩
  · rcases server with ended | ⟨-, -, waits⟩
    · exact unfinished ⟨last, ended⟩
    · exact waits last
  · rcases server with ended | ⟨head, empty, -⟩
    · have last := (healthy.orderly _ ended).2
      rw [loop] at last
      cases last
    · have request := healthy.request
      have reply := healthy.reply
      obtain ⟨asked, -, -, more, -⟩ := (loop ▸ healthy.client).inLoop
      have level := (head ▸ healthy.serving).level
      rw [empty, List.append_nil] at request
      rw [dry, List.append_nil, level, request, asked] at reply
      rw [reply] at more
      exact absurd more (lt_irrefl _)

theorem progress (run : Run) :
    run.protocol.Progress run.Reliable Turn.party (Healthy run) (rank run) Finished := by
  apply @Machine.Progress.of_waits _ _ _ _ _ _ _ _ _ _ Stuck
  · exact fun _ _ _ healthy reliable => healthy.step reliable
  · exact fun _ _ _ _ healthy reliable => (step_reliably healthy reliable).moves healthy
  · exact fun _ _ healthy => healthy.enabled
  · intro past s turn healthy reliable finished
    obtain ⟨last, ended⟩ := finished
    have moved := step_reliably healthy reliable
    change Finished (run.step turn s).1
    generalize (run.step turn s).1 = s' at moved ⊢
    generalize turn.party = party at moved
    cases moved with
    | asked first => exact absurd (last.symm.trans first) (by simp)
    | starved loop | got loop => exact absurd (last.symm.trans loop) (by simp)
    | done | returned => exact ⟨last, ended⟩
    | idle head | closed head | taken head => exact absurd (ended.symm.trans head) (by simp)
    | given busy => exact absurd (ended.symm.trans busy) (by simp)

theorem healthy_start (run : Run) : Healthy run [] Run.start :=
  ⟨flow_start run, by simp [Run.start], by simp [Run.start]⟩

theorem Flow.finished {run : Run} {past : List Seen} {s : System} (flow : Flow run past s) (finished : Finished s) :
    printed past = run.client.banner ++ run.echoStr ++ [LF] ∧ EchoServer.accepted (serverCalls past) = run.echoStr := by
  have here := flow.client
  have front := flow.front
  rw [flow.reply] at front
  have back : received past <+: EchoServer.accepted (serverCalls past) := ⟨_, flow.reply⟩
  rw [finished.1] at here
  generalize requested past = asked at here
  generalize results past = had at here
  generalize received past = got at here back
  generalize printed past = shown at here ⊢
  cases here with
  | done main => exact ⟨rfl, front.eq_of_length (le_antisymm front.length_le back.length_le)⟩

theorem At.unasked {run : Run} {sent got shown : Bytes} {results : List (Option Bytes)}
    (here : At run sent results got shown .sendEcho) : sent = [] := by
  cases here with
  | sendEcho => rfl

theorem Serving.held {status : Nat} {calls : List EchoServer.Call} {buf : Bytes}
    (serving : Serving status calls (.sendBack buf)) :
    (EchoServer.accepted calls ++ buf).length = (EchoServer.received calls).length := by
  cases serving with
  | sendBack even loop level solid =>
    rw [EchoServer.accepted_append, EchoServer.received_append, level, EchoServer.accepted_recv,
      EchoServer.received_recv]
    simp [EchoServer.accepted, EchoServer.received]

theorem Flow.hasRoom {run : Run} {past : List Seen} {s : System} (flow : Flow run past s) {capacity : Party → Nat}
    (fits : ∀ party, run.echoStr.length ≤ capacity party) (party : Party) : run.hasRoom capacity s party = true := by
  have bound := fits party
  rw [Run.hasRoom, Bool.or_eq_true, decide_eq_true_eq, decide_eq_true_eq]
  cases party with
  | client =>
    by_cases first : s.client = .sendEcho
    · have request := flow.request
      have nothing := (first ▸ flow.client).unasked
      rw [nothing, List.append_eq_nil_iff] at request
      exact Or.inr (by simpa [System.ahead, Run.sends, first, request.2] using bound)
    · exact Or.inl (by simp [Run.sends, first])
  | server =>
    cases busy : s.server with
    | receive | ended how => exact Or.inl (by simp [Run.sends, busy])
    | sendBack buf =>
      have asked := flow.client.part.length_le
      have request := congrArg List.length flow.request
      have reply := congrArg List.length flow.reply
      have held := (busy ▸ flow.serving).held
      rw [List.length_append] at request reply held
      refine Or.inr ?_
      simp only [System.ahead, Run.sends, busy]
      omega

theorem hi_clean : NUL ∉ [(104 : UInt8), 105] := by decide

theorem ipv4Client_exact {len : Nat} (short : len < 2 ^ 32) : ∀ n ≤ len, ipv4Client.tally n = n :=
  fun _ le => Nat.mod_eq_of_lt (Nat.lt_of_le_of_lt le short)

theorem hi_short : [(104 : UInt8), 105].length < 2 ^ 32 := by decide

def hi : Run := ⟨ipv4Client, [104, 105], hi_clean, ipv4Client_exact hi_short, 1, Nat.one_pos, 1⟩

end SocketPrograms.EchoSystem
