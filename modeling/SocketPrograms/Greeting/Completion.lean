import SocketPrograms.Greeting.Correct

/-! Over reliable streams the client and the server of IPv6_TCP_V2 get to their ends, although
the client does not look for the end of the stream. -/

namespace SocketPrograms.Greeting
open Lib CString

/-- What the client has still to ask for: every byte of its string is sent, taken, given back and got. -/
def Client.asks (run : Run) : Client → Nat
  | .receiveGreetings _ _ | .sendEcho => 3 * run.echoStr.length + 1
  | _ => 0

def Server.work : Server → Nat
  | .sendGreetings => GREETING_MSG.length + 2
  | .receive => 1
  | .sendBack buf => 2 * buf.length + 1
  | .closed | .failed => 0

def rank (run : Run) (s : System) : Nat :=
  s.client.asks run + s.server.work + s.toClient.length + 3 * s.toServer.length

def Finished (s : System) : Prop := s.client = .done ∧ s.server = .closed

def Waits (s : System) : Party → Prop
  | .client => s.client = .done ∨ s.client ≠ .sendEcho ∧ s.toClient = []
  | .server => s.server = .closed ∨ s.server = .receive ∧ s.toServer = [] ∧ s.client ≠ .done

@[simp] theorem asks_receiveGreetings (run : Run) (buf : Bytes) (total : Nat) :
    (Client.receiveGreetings buf total).asks run = 3 * run.echoStr.length + 1 := rfl

@[simp] theorem asks_sendEcho (run : Run) : Client.sendEcho.asks run = 3 * run.echoStr.length + 1 := rfl

@[simp] theorem asks_receiveEcho (run : Run) (buf : Bytes) (total : Nat) :
    (Client.receiveEcho buf total).asks run = 0 := rfl

theorem asks_checkGreeting (run : Run) (buf : Bytes) (total : Nat) :
    (checkGreeting buf total).1.asks run ≤ 3 * run.echoStr.length + 1 := by
  unfold checkGreeting
  split_ifs
  · exact le_rfl
  · exact Nat.zero_le _

theorem asks_echoLoop (run : Run) (buf : Bytes) (total : Nat) : (run.echoLoop buf total).1.asks run = 0 := by
  unfold Run.echoLoop
  split_ifs <;> rfl

section
variable {run : Run} {printed : Bytes} {s : System} {count : Nat}

theorem Inv.client_moves (inv : Inv run printed s) (positive : 0 < count)
    (all : (run.sends s .client).length ≤ count) :
    (run.clientStep (some count) s).1 = s ∧ Waits s .client ∨
      rank run (run.clientStep (some count) s).1 < rank run s := by
  cases inv with
  | connected => exact Or.inl ⟨rfl, Or.inr ⟨by simp [Run.start], rfl⟩⟩
  | @greeted buf got coming size front split more =>
    have five : GREETING_MSG.length = 5 := rfl
    have total : got.length + coming.length = GREETING_MSG.length := by rw [split, List.length_append]
    have room : 0 < BUF_SIZE - got.length - 1 := by
      rw [BUF_SIZE]
      omega
    obtain ⟨bytes, rest, received, parts, solid, -⟩ := recv_got more false room positive
    have some_bytes := List.length_pos_of_ne_nil solid
    have sizes : coming.length = bytes.length + rest.length := by rw [parts, List.length_append]
    have bound := asks_checkGreeting run (storeString buf got.length bytes) (got.length + bytes.length)
    apply Or.inr
    simp only [Run.clientStep, Server.hungUp, received, rank, asks_receiveGreetings]
    split_ifs
    · rw [asks_receiveGreetings]
      omega
    · omega
  | ready =>
    have whole : send run.echoStr (some count) = some run.echoStr := send_all all
    apply Or.inr
    simp only [Run.clientStep, whole, if_true, rank, asks_echoLoop, asks_sendEcho, List.nil_append, List.length_nil]
    omega
  | @echoing buf shown toClient held toServer server size split holds more =>
    have up : server.hungUp = false := by cases holds <;> rfl
    by_cases dry : toClient = []
    · subst dry
      refine Or.inl ⟨?_, Or.inr ⟨by simp, rfl⟩⟩
      simp only [Run.clientStep, up, recv_blocked]
    · obtain ⟨bytes, rest, received, parts, solid, -⟩ :=
        recv_got dry false (show 0 < BUF_SIZE - 1 by decide) positive
      have some_bytes := List.length_pos_of_ne_nil solid
      have sizes : toClient.length = bytes.length + rest.length := by rw [parts, List.length_append]
      apply Or.inr
      simp only [Run.clientStep, up, received, rank, asks_echoLoop, asks_receiveEcho]
      omega
  | done idle => exact Or.inl ⟨rfl, Or.inl rfl⟩

theorem Inv.server_moves (inv : Inv run printed s) (positive : 0 < count)
    (all : (run.sends s .server).length ≤ count) :
    serverStep (some count) s = s ∧ Waits s .server ∨ rank run (serverStep (some count) s) < rank run s := by
  cases inv with
  | connected =>
    simp only [Run.sends, Run.start] at all
    apply Or.inr
    simp only [serverStep, Run.start, send_all all, lt_irrefl, if_false, rank, Server.work, List.nil_append,
      List.length_nil]
    omega
  | greeted => exact Or.inl ⟨rfl, Or.inr ⟨rfl, rfl, by simp⟩⟩
  | ready => exact Or.inl ⟨rfl, Or.inr ⟨rfl, rfl, by simp⟩⟩
  | @echoing buf shown toClient held toServer server size split holds more =>
    cases holds with
    | nothing =>
      by_cases dry : toServer = []
      · subst dry
        exact Or.inl ⟨rfl, Or.inr ⟨rfl, rfl, by simp⟩⟩
      · obtain ⟨bytes, rest, received, parts, solid, -⟩ :=
          recv_got dry false (show 0 < BUF_SIZE by decide) positive
        have some_bytes := List.length_pos_of_ne_nil solid
        have sizes : toServer.length = bytes.length + rest.length := by rw [parts, List.length_append]
        apply Or.inr
        simp only [serverStep, Client.terminated, received, if_neg solid, rank, Server.work]
        omega
    | bytes solid =>
      have some_bytes := List.length_pos_of_ne_nil solid
      simp only [Run.sends] at all
      apply Or.inr
      simp only [serverStep, send_all all, if_true, rank, Server.work, List.length_append]
      omega
  | done idle =>
    rcases idle with receive | closed
    · subst receive
      apply Or.inr
      simp [serverStep, recv, Client.terminated, rank, Server.work]
    · subst closed
      exact Or.inl ⟨rfl, Or.inl rfl⟩

theorem Inv.enabled (inv : Inv run printed s) (unfinished : ¬Finished s) : ∃ party, ¬Waits s party := by
  cases inv with
  | connected => exact ⟨.server, by simp [Waits, Run.start]⟩
  | greeted size front split more => exact ⟨.client, by simp [Waits, more]⟩
  | ready => exact ⟨.client, by simp [Waits]⟩
  | @echoing buf shown toClient held toServer server size split holds more =>
    by_cases dry : toClient = []
    · refine ⟨.server, ?_⟩
      cases holds with
      | nothing =>
        intro waits
        have empty : toServer = [] := by simpa [Waits] using waits
        rw [dry, empty] at split
        simp [split] at more
      | bytes solid => simp [Waits]
    · exact ⟨.client, by simp [Waits, dry]⟩
  | done idle =>
    rcases idle with receive | closed
    · subst receive
      exact ⟨.server, by simp [Waits]⟩
    · exact absurd ⟨rfl, closed⟩ unfinished

end

theorem Inv.finished {run : Run} {printed : Bytes} {s : System} (inv : Inv run printed s) (finished : Finished s) :
    s.toClient = [] ∧ s.toServer = [] ∧ printed = GREETING_MSG ++ [LF] ++ run.echoStr ++ [LF] := by
  cases inv with
  | done idle => exact ⟨rfl, rfl, rfl⟩
  | connected | greeted | ready | echoing => cases finished.1

theorem Inv.moves {run : Run} {printed : Bytes} {s : System} (inv : Inv run printed s) {turn : Turn}
    (reliable : run.Reliable s turn) :
    (run.step turn s).1 = s ∧ Waits s turn.party ∨ rank run (run.step turn s).1 < rank run s := by
  obtain ⟨count, answer, positive, all⟩ := reliable
  obtain ⟨party, _⟩ := turn
  cases answer
  cases party with
  | client => exact inv.client_moves positive all
  | server => exact inv.server_moves positive all

theorem progress (run : Run) :
    run.protocol.Progress (fun _ => run.Reliable) Turn.party (Inv run) (rank run) Finished := by
  apply @Machine.Progress.of_waits _ _ _ _ _ _ _ _ _ _ Waits
  · exact fun _ _ _ inv reliable => inv.step reliable
  · exact fun _ _ _ _ inv reliable => inv.moves reliable
  · exact fun _ _ inv => inv.enabled
  · intro past s turn inv reliable finished
    obtain ⟨client, server, toClient, toServer⟩ := s
    obtain ⟨rfl, rfl⟩ := finished
    change Finished (run.step turn _).1
    unfold Run.step
    cases turn.party <;> exact ⟨rfl, rfl⟩

theorem Inv.hasRoom {run : Run} {printed : Bytes} {s : System} (inv : Inv run printed s) {capacity : Party → Nat}
    (greeting : GREETING_MSG.length ≤ capacity .server) (fits : ∀ party, run.echoStr.length ≤ capacity party)
    (party : Party) : run.hasRoom capacity s party = true := by
  have bound := fits party
  rw [Run.hasRoom, Bool.or_eq_true, decide_eq_true_eq, decide_eq_true_eq]
  cases inv with
  | connected =>
    cases party with
    | client => exact Or.inl rfl
    | server => exact Or.inr (by simpa [System.ahead, Run.sends, Run.start] using greeting)
  | greeted => cases party <;> exact Or.inl rfl
  | ready =>
    cases party with
    | client => exact Or.inr (by simpa [System.ahead, Run.sends] using bound)
    | server => exact Or.inl rfl
  | echoing size split holds more =>
    cases party with
    | client => exact Or.inl rfl
    | server =>
      cases holds with
      | nothing => exact Or.inl rfl
      | bytes solid =>
        have sizes := congrArg List.length split
        simp only [List.length_append] at sizes
        refine Or.inr ?_
        simp only [System.ahead, Run.sends]
        omega
  | done idle =>
    cases party with
    | client => exact Or.inl rfl
    | server => rcases idle with rfl | rfl <;> exact Or.inl rfl

/-- After more rounds than three times the length of the echo string and eight, in each of which
both programs have a turn, the client has printed the greeting and its echo string and is at its
end, and the server has closed the connection. Both strings must fit into the socket buffers. -/
theorem greeting_completes (run : Run) (capacity : Party → Nat) (greeting : GREETING_MSG.length ≤ capacity .server)
    (fits : ∀ party, run.echoStr.length ≤ capacity party) (rounds : List (List Turn)) :
    (∀ round ∈ rounds, Covers Turn.party round) →
      (run.bounded capacity).Along (fun _ => run.Reliable) rounds.flatten [] run.start →
        3 * run.echoStr.length + 8 < rounds.length →
          let now := (run.bounded capacity).run rounds.flatten run.start
          now.1.client = .done ∧ now.1.server = .closed ∧ now.1.toClient = [] ∧ now.1.toServer = [] ∧
            now.2 = GREETING_MSG ++ [LF] ++ run.echoStr ++ [LF] := by
  intro covered slowly enough
  obtain ⟨along, same⟩ := Machine.gate_free (progress run).keeps
    (fun _ _ turn inv _ => inv.hasRoom greeting fits turn.party) .connected slowly
  rw [Run.bounded, same]
  intro now
  have start : rank run run.start = 3 * run.echoStr.length + 8 := rfl
  have finished : Finished now.1 := (progress run).rounds covered .connected along (by omega)
  have inv : Inv run now.2 now.1 := run.protocol.invariant (Inv run) (progress run).keeps .connected along
  exact ⟨finished.1, finished.2, inv.finished finished⟩

def twoBytesRounds : List (List Turn) := List.replicate 15 [⟨.server, some 5⟩, ⟨.client, some 5⟩]

theorem greeting_completes_two :
    let now := (twoBytes.bounded fun _ => 5).run twoBytesRounds.flatten twoBytes.start
    now.1.client = .done ∧ now.1.server = .closed ∧ now.1.toClient = [] ∧ now.1.toServer = [] ∧
      now.2 = GREETING_MSG ++ [LF] ++ twoBytes.echoStr ++ [LF] := by
  refine greeting_completes twoBytes (fun _ => 5) (by decide) (fun _ => by decide) twoBytesRounds ?_
    (by decide +kernel) (by decide)
  intro round member
  rw [List.eq_of_mem_replicate member]
  intro party
  cases party <;> simp

end SocketPrograms.Greeting
