import SocketPrograms.EchoSystem.Connection

/-! Each of the two programs does over the connection what its loop does on the results that
its calls get, and what is between them is the part of the echo string that is on its way. -/

namespace SocketPrograms.EchoSystem
open Lib CString
open Greeting (Turn Party recv recv_cases)
open EchoClient (LF EXIT_SUCCESS EXIT_FAILURE)
open EchoServer (breakLoop)

/-! ### The server -/

/-- The loop on results that leave it at its head, and on more of them. -/
theorem breakLoop_append {status : Nat} {recvs : List (Option Bytes)} {sends : List Int}
    (even : recvs.length = sends.length) (waits : (breakLoop status recvs sends).1 = .waiting)
    (more : List (Option Bytes)) (answers : List Int) :
    breakLoop status (recvs ++ more) (sends ++ answers) =
      ((breakLoop status more answers).1, (breakLoop status recvs sends).2 ++ (breakLoop status more answers).2) := by
  induction recvs generalizing sends with
  | nil =>
    have none : sends = [] := List.length_eq_zero_iff.mp even.symm
    subst none
    rfl
  | cons result recvs ih =>
    cases sends with
    | nil => simp at even
    | cons sent sends =>
      cases result with
      | none => cases waits
      | some buf =>
        simp only [breakLoop] at waits
        simp only [List.cons_append, breakLoop]
        split_ifs at waits ⊢
        rw [ih (by simpa using even) waits]
        rfl

inductive Serving (status : Nat) : List EchoServer.Call → Server → Prop where
  | receive {recvs : List (Option Bytes)} {sends : List Int} {calls : List EchoServer.Call}
      (even : recvs.length = sends.length) (loop : breakLoop status recvs sends = (.waiting, calls))
      (level : EchoServer.accepted calls = EchoServer.received calls) : Serving status calls .receive
  | sendBack {recvs : List (Option Bytes)} {sends : List Int} {calls : List EchoServer.Call} {buf : Bytes}
      (even : recvs.length = sends.length) (loop : breakLoop status recvs sends = (.waiting, calls))
      (level : EchoServer.accepted calls = EchoServer.received calls) (solid : buf ≠ []) :
      Serving status (calls ++ [.recv (some buf)]) (.sendBack buf)
  | ended {recvs : List (Option Bytes)} {sends : List Int} {calls : List EchoServer.Call} {how : EchoServer.Ended}
      (loop : breakLoop status recvs sends = (how, calls)) : Serving status calls (.ended how)

def Server.how : Server → EchoServer.Ended
  | .receive | .sendBack _ => .waiting
  | .ended how => how

theorem breakLoop_one {status : Nat} {buf : Bytes} (solid : buf ≠ []) :
    breakLoop status [some buf] [] = (.waiting, [.recv (some buf)]) := by
  simp [breakLoop, solid]

theorem Serving.loop {status : Nat} {calls : List EchoServer.Call} {server : Server}
    (serving : Serving status calls server) : ∃ recvs sends, breakLoop status recvs sends = (server.how, calls) := by
  cases serving with
  | receive even loop level => exact ⟨_, _, loop⟩
  | @sendBack recvs sends calls buf even loop level solid =>
    refine ⟨recvs ++ [some buf], sends ++ [], ?_⟩
    rw [breakLoop_append even (congrArg Prod.fst loop), loop, breakLoop_one solid]
    rfl
  | ended loop => exact ⟨_, _, loop⟩

theorem Serving.echoes {status : Nat} {calls : List EchoServer.Call} {server : Server}
    (serving : Serving status calls server) :
    EchoServer.accepted calls <+: EchoServer.received calls := by
  obtain ⟨recvs, sends, loop⟩ := serving.loop
  have echoes := (EchoServer.breakLoop_echoes status recvs sends).front
  rwa [loop] at echoes

section
variable {status : Nat} {calls : List EchoServer.Call}

theorem Serving.failed (serving : Serving status calls .receive) :
    Serving status (calls ++ [.recv none]) (.ended (.systemMsg "recv() failed" status)) := by
  cases serving with
  | @receive recvs sends calls even loop level =>
    have onward := breakLoop_append even (congrArg Prod.fst loop) [none] []
    rw [loop] at onward
    exact .ended onward

theorem Serving.got (serving : Serving status calls .receive) (bytes : Bytes) :
    Serving status (calls ++ [.recv (some bytes)]) (if bytes = [] then .ended .returned else .sendBack bytes) := by
  cases serving with
  | @receive recvs sends calls even loop level =>
    split_ifs with empty
    · subst empty
      have onward := breakLoop_append even (congrArg Prod.fst loop) [some []] []
      rw [loop] at onward
      exact .ended onward
    · exact .sendBack even loop level empty

theorem Serving.sent {buf : Bytes} (serving : Serving status calls (.sendBack buf)) (result : Int) :
    Serving status (calls ++ [.send buf result])
      (if result < 0 then .ended (.systemMsg "send() failed" status)
        else if result ≠ buf.length then
          .ended (.userMsg "send()" "sent unexpected number of bytes" EchoServer.EXIT_FAILURE)
        else .receive) := by
  cases serving with
  | @sendBack recvs sends calls _ even loop level solid =>
    have onward := breakLoop_append even (congrArg Prod.fst loop) [some buf] [result]
    rw [loop] at onward
    have turn : breakLoop status [some buf] [result] =
        if result < 0 then (.systemMsg "send() failed" status, [.recv (some buf), .send buf result])
        else if result ≠ buf.length then
          (.userMsg "send()" "sent unexpected number of bytes" EchoServer.EXIT_FAILURE,
            [.recv (some buf), .send buf result])
        else (.waiting, [.recv (some buf), .send buf result]) := by
      simp [breakLoop, solid]
    rw [turn] at onward
    rw [List.append_assoc]
    split_ifs at onward ⊢ with negative partly
    · exact .ended onward
    · exact .ended onward
    · apply Serving.receive (by simp [even]) onward
      rw [not_not] at partly
      have all : buf.take result.toNat = buf := List.take_of_length_le (by omega)
      change EchoServer.accepted (calls ++ (.recv (some buf) :: [.send buf result])) =
        EchoServer.received (calls ++ (.recv (some buf) :: [.send buf result]))
      rw [EchoServer.accepted_append, EchoServer.received_append, EchoServer.accepted_recv,
        EchoServer.accepted_send, EchoServer.received_recv, EchoServer.received_send, all, level]
      rfl

end

/-! ### The client -/

/-- Where the client is after its `send` took `requested` bytes and its calls of `recv` had these
results, with the bytes received and printed. -/
inductive At (run : Run) : Bytes → List (Option Bytes) → Bytes → Bytes → Client → Prop where
  | sendEcho : At run [] [] [] [] .sendEcho
  | receive {results : List (Option Bytes)} {got : Bytes} (more : got.length < run.echoStr.length)
      (loop : ∀ later, run.client.receiveLoop run.echoStr.length 0 (results ++ later) =
        ⟨got ++ (run.client.receiveLoop run.echoStr.length got.length later).stdout,
          (run.client.receiveLoop run.echoStr.length got.length later).status⟩) :
      At run run.echoStr results got (run.client.banner ++ got) (.receive got.length)
  | done {results : List (Option Bytes)}
      (main : run.client.main run.echoStr run.echoStr.length results =
        ⟨run.client.banner ++ run.echoStr ++ [LF], EXIT_SUCCESS⟩) :
      At run run.echoStr results run.echoStr (run.client.banner ++ run.echoStr ++ [LF]) .done
  | unsent {sent : Bytes} {numBytes : Int} {status : Nat} (part : sent <+: run.echoStr)
      (result : numBytes = sent.length ∨ numBytes = -1 ∧ sent = [])
      (main : run.client.main run.echoStr numBytes [] = ⟨[], status⟩) : At run sent [] [] [] (.exited status)
  | broken {results : List (Option Bytes)} {got : Bytes} {status : Nat}
      (main : run.client.main run.echoStr run.echoStr.length results = ⟨run.client.banner ++ got, status⟩) :
      At run run.echoStr results got (run.client.banner ++ got) (.exited status)

theorem At.before {run : Run} {sent got shown : Bytes} {results : List (Option Bytes)}
    (here : At run sent results got shown .sendEcho) : sent = [] ∧ results = [] ∧ got = [] ∧ shown = [] := by
  cases here
  exact ⟨rfl, rfl, rfl, rfl⟩

theorem At.inLoop {run : Run} {sent got shown : Bytes} {results : List (Option Bytes)} {total : Nat}
    (here : At run sent results got shown (.receive total)) :
    sent = run.echoStr ∧ shown = run.client.banner ++ got ∧ total = got.length ∧ got.length < run.echoStr.length ∧
      ∀ later, run.client.receiveLoop run.echoStr.length 0 (results ++ later) =
        ⟨got ++ (run.client.receiveLoop run.echoStr.length got.length later).stdout,
          (run.client.receiveLoop run.echoStr.length got.length later).status⟩ := by
  cases here with
  | receive more loop => exact ⟨rfl, rfl, rfl, more, loop⟩

theorem main_sent (run : Run) (results : List (Option Bytes)) :
    run.client.main run.echoStr run.echoStr.length results =
      ⟨run.client.banner ++ (run.client.receiveLoop run.echoStr.length 0 results).stdout,
        (run.client.receiveLoop run.echoStr.length 0 results).status⟩ := by
  have sign : ¬ ((run.echoStr.length : Int) < 0) := by omega
  simp [EchoClient.Client.main, sign]

theorem at_loop {run : Run} {results : List (Option Bytes)} {got : Bytes} (front : got <+: run.echoStr)
    (loop : ∀ later, run.client.receiveLoop run.echoStr.length 0 (results ++ later) =
      ⟨got ++ (run.client.receiveLoop run.echoStr.length got.length later).stdout,
        (run.client.receiveLoop run.echoStr.length got.length later).status⟩) :
    At run run.echoStr results got (run.client.banner ++ got ++ (run.loop got.length).2) (run.loop got.length).1 := by
  unfold Run.loop
  split_ifs with more
  · rw [List.append_nil]
    exact .receive more loop
  · have whole : got = run.echoStr := front.eq_of_length (by have := front.length_le; omega)
    subst whole
    apply At.done
    have rest := loop []
    rw [List.append_nil, EchoClient.receiveLoop_done run.client le_rfl] at rest
    rw [main_sent, rest, List.append_assoc]

theorem at_chunk {run : Run} {results : List (Option Bytes)} {got bytes : Bytes} (front : got ++ bytes <+: run.echoStr)
    (solid : bytes ≠ []) (more : got.length < run.echoStr.length)
    (loop : ∀ later, run.client.receiveLoop run.echoStr.length 0 (results ++ later) =
      ⟨got ++ (run.client.receiveLoop run.echoStr.length got.length later).stdout,
        (run.client.receiveLoop run.echoStr.length got.length later).status⟩) :
    cString (bytes ++ [NUL]) = bytes ∧ run.client.tally (got.length + bytes.length) = (got ++ bytes).length ∧
      At run run.echoStr (results ++ [some bytes]) (got ++ bytes)
        (run.client.banner ++ (got ++ bytes) ++ (run.loop (got ++ bytes).length).2)
        (run.loop (got ++ bytes).length).1 := by
  have clean : NUL ∉ bytes := fun nul => run.clean (front.subset (List.mem_append_right got nul))
  have text : cString bytes = bytes := cString_of_clean clean
  have tally : run.client.tally (got.length + bytes.length) = (got ++ bytes).length := by
    rw [← List.length_append]
    exact run.exact _ front.length_le
  refine ⟨by rw [cString_closed, text], tally, at_loop front fun later => ?_⟩
  rw [List.append_assoc, List.singleton_append, loop, EchoClient.receiveLoop_chunk run.client more solid, text, tally,
    List.append_assoc]

theorem at_broken {run : Run} {results : List (Option Bytes)} {got : Bytes} {result : Option Bytes} {status : Nat}
    (loop : ∀ later, run.client.receiveLoop run.echoStr.length 0 (results ++ later) =
      ⟨got ++ (run.client.receiveLoop run.echoStr.length got.length later).stdout,
        (run.client.receiveLoop run.echoStr.length got.length later).status⟩)
    (ends : run.client.receiveLoop run.echoStr.length got.length [result] = ⟨[], status⟩) :
    At run run.echoStr (results ++ [result]) got (run.client.banner ++ got) (.exited status) := by
  apply At.broken
  rw [main_sent, loop, ends, List.append_nil]

/-! ### Steps -/

/-- The part of the echo string that is on its way is between what was sent and what came. -/
structure Flow (run : Run) (past : List Seen) (s : System) : Prop where
  serving : Serving run.status (serverCalls past) s.server
  client : At run (requested past) (results past) (received past) (printed past) s.client
  request : EchoServer.received (serverCalls past) ++ s.toServer = requested past
  reply : received past ++ s.toClient = EchoServer.accepted (serverCalls past)

theorem At.part {run : Run} {sent got shown : Bytes} {results : List (Option Bytes)} {client : Client}
    (here : At run sent results got shown client) : sent <+: run.echoStr := by
  cases here with
  | sendEcho => exact List.nil_prefix
  | receive | done | broken => exact List.prefix_rfl
  | unsent part => exact part

theorem Flow.front {run : Run} {past : List Seen} {s : System} (flow : Flow run past s) :
    received past ++ s.toClient <+: run.echoStr := by
  have asked : EchoServer.received (serverCalls past) <+: requested past := ⟨_, flow.request⟩
  rw [flow.reply]
  exact (flow.serving.echoes.trans asked).trans flow.client.part

theorem flow_start (run : Run) : Flow run [] Run.start :=
  ⟨@Serving.receive _ [] [] _ rfl rfl rfl, .sendEcho, rfl, rfl⟩

theorem accepted_sent (buf : Bytes) (count : Nat) :
    EchoServer.accepted [.send buf (buf.take count).length] = buf.take count := by
  rw [EchoServer.accepted_send, Int.toNat_natCast, List.length_take, ← List.take_eq_take_min]
  exact List.append_nil _

section
variable {run : Run} {past : List Seen} {client : Client} {server server' : Server}
  {toClient toServer toClient' toServer' : Bytes}

theorem Flow.served (flow : Flow run past ⟨client, server, toClient, toServer⟩) (call : EchoServer.Call)
    (serving : Serving run.status (serverCalls past ++ [call]) server')
    (taken : toServer = EchoServer.received [call] ++ toServer')
    (given : toClient' = toClient ++ EchoServer.accepted [call]) :
    Flow run (past ++ [.server call]) ⟨client, server', toClient', toServer'⟩ where
  serving := by
    rw [serverCalls_append]
    exact serving
  client := by
    have here := flow.client
    rw [requested_append, results_append, received_append, printed_append]
    simpa [requested, results, received, printed] using here
  request := by
    rw [serverCalls_append, requested_append]
    have before := flow.request
    rw [taken, ← List.append_assoc] at before
    change EchoServer.received (serverCalls past ++ [call]) ++ toServer' = requested past ++ []
    rw [EchoServer.received_append, before, List.append_nil]
  reply := by
    have before := flow.reply
    rw [serverCalls_append, received_append, given]
    change received past ++ [] ++ (toClient ++ EchoServer.accepted [call]) =
      EchoServer.accepted (serverCalls past ++ [call])
    rw [EchoServer.accepted_append, List.append_nil, ← List.append_assoc, before]

theorem server_flow (flow : Flow run past ⟨client, server, toClient, toServer⟩) (answer : Option Nat) :
    Flow run (past ++ (run.serverStep answer ⟨client, server, toClient, toServer⟩).2)
      (run.serverStep answer ⟨client, server, toClient, toServer⟩).1 := by
  have serving := flow.serving
  unfold Run.serverStep
  cases server with
  | receive =>
    rcases recv_cases run.limit toServer client.terminated answer with blocked | failed | ⟨bytes, rest, got, split, -⟩
    · simpa only [blocked, List.append_nil] using flow
    · simp only [failed]
      exact flow.served _ serving.failed rfl (List.append_nil _).symm
    · simp only [got]
      exact flow.served _ (serving.got bytes) (by simpa [EchoServer.received] using split) (List.append_nil _).symm
  | sendBack buf =>
    cases answer with
    | none =>
      have refused := serving.sent (-1)
      simp only [Greeting.send, Option.map_none]
      exact flow.served _ (by simpa using refused) rfl (List.append_nil _).symm
    | some count =>
      have sent := serving.sent (buf.take count).length
      have sign : ¬ (((buf.take count).length : Int) < 0) := by omega
      simp only [Greeting.send, Option.map_some]
      refine flow.served _ ?_ rfl (by rw [accepted_sent])
      have partly : ((buf.take count).length : Int) ≠ buf.length ↔ ¬ (buf.take count).length = buf.length := by omega
      rw [if_neg sign] at sent
      simpa only [partly, ite_not] using sent
  | ended how => simpa only [List.append_nil] using flow

theorem Flow.acted (flow : Flow run past ⟨client, server, toClient, toServer⟩) (seen : List Seen) {client' : Client}
    (silent : serverCalls seen = [])
    (here : At run (requested past ++ requested seen) (results past ++ results seen) (received past ++ received seen)
      (printed past ++ printed seen) client')
    (taken : toClient = received seen ++ toClient') (given : toServer' = toServer ++ requested seen) :
    Flow run (past ++ seen) ⟨client', server, toClient', toServer'⟩ where
  serving := by
    rw [serverCalls_append, silent, List.append_nil]
    exact flow.serving
  client := by
    rw [requested_append, results_append, received_append, printed_append]
    exact here
  request := by
    have before := flow.request
    rw [serverCalls_append, silent, List.append_nil, requested_append, given, ← List.append_assoc, before]
  reply := by
    have before := flow.reply
    rw [taken, ← List.append_assoc] at before
    rw [serverCalls_append, silent, List.append_nil, received_append]
    exact before

theorem client_flow (flow : Flow run past ⟨client, server, toClient, toServer⟩) (answer : Option Nat) :
    Flow run (past ++ (run.clientStep answer ⟨client, server, toClient, toServer⟩).2)
      (run.clientStep answer ⟨client, server, toClient, toServer⟩).1 := by
  have here := flow.client
  have front := flow.front
  unfold Run.clientStep
  cases client with
  | sendEcho =>
    obtain ⟨asked, had, came, shown⟩ := here.before
    cases answer with
    | none =>
      simp only [Greeting.send, Option.map_none]
      refine flow.acted _ rfl ?_ rfl (List.append_nil _).symm
      rw [asked, had, came, shown]
      exact .unsent List.nil_prefix (Or.inr ⟨rfl, rfl⟩) (by simp [EchoClient.Client.main])
    | some count =>
      simp only [Greeting.send, Option.map_some]
      have part : run.echoStr.take count <+: run.echoStr := List.take_prefix _ _
      split_ifs with all
      · have whole : run.echoStr.take count = run.echoStr := part.eq_of_length all
        refine flow.acted _ rfl ?_ rfl (by simp [requested])
        rw [asked, had, came, shown, whole]
        have begun : At run run.echoStr [] [] (run.client.banner ++ [] ++ (run.loop 0).2) (run.loop 0).1 :=
          at_loop List.nil_prefix fun _ => rfl
        simpa [requested, results, received, printed] using begun
      · refine flow.acted _ rfl ?_ rfl (by simp [requested])
        rw [asked, had, came, shown]
        have result : ((run.echoStr.take count).length : Int) ≠ run.echoStr.length := by omega
        have sign : ¬ (((run.echoStr.take count).length : Int) < 0) := by omega
        have main : run.client.main run.echoStr (run.echoStr.take count).length [] = ⟨[], EXIT_FAILURE⟩ := by
          rw [EchoClient.Client.main, if_neg sign, if_pos result]
        exact .unsent (by simpa [requested] using part) (Or.inl (by simp [requested])) main
  | receive total =>
    obtain ⟨asked, shown, rfl, more, loop⟩ := here.inLoop
    rcases recv_cases (EchoClient.BUF_SIZE - 1) toClient server.hungUp answer with
      blocked | failed | ⟨bytes, rest, got, split, -⟩
    · simpa only [blocked, List.append_nil] using flow
    · have ends : run.client.receiveLoop run.echoStr.length (received past).length [none] =
          ⟨[], run.client.systemStatus⟩ := by simp [EchoClient.Client.receiveLoop, more]
      have broken := at_broken loop ends
      simp only [failed]
      refine flow.acted _ rfl ?_ rfl (List.append_nil _).symm
      rw [asked, shown]
      simpa [requested, results, received, printed] using broken
    · simp only [got]
      split_ifs with empty
      · have ends : run.client.receiveLoop run.echoStr.length (received past).length [some []] =
            ⟨[], EXIT_FAILURE⟩ := by simp [EchoClient.Client.receiveLoop, more]
        have broken := at_broken loop ends
        refine flow.acted _ rfl ?_ rfl (List.append_nil _).symm
        rw [asked, shown]
        simpa [requested, results, received, printed] using broken
      · have inside : received past ++ bytes <+: run.echoStr := by
          rw [split, ← List.append_assoc] at front
          exact (List.prefix_append _ rest).trans front
        obtain ⟨text, tally, next⟩ := at_chunk inside empty more loop
        rw [text, tally]
        refine flow.acted _ rfl ?_ (by simpa [received, results] using split) (List.append_nil _).symm
        rw [asked, shown]
        simpa [requested, results, received, printed] using next
  | done => simpa only [List.append_nil] using flow
  | exited status => simpa only [List.append_nil] using flow

end

theorem step_flow {run : Run} {past : List Seen} {s : System} (flow : Flow run past s) (turn : Turn) :
    Flow run (past ++ (run.step turn s).2) (run.step turn s).1 := by
  unfold Run.step
  cases turn.party with
  | client => exact client_flow flow turn.answer
  | server => exact server_flow flow turn.answer

def Client.status : Client → Option Nat
  | .sendEcho | .receive _ => none
  | .done => some EXIT_SUCCESS
  | .exited status => some status

/-- The server makes the calls of its loop, and the client that has ended has done what `main` does
on the results of its calls. It prints nothing but a beginning of the echo string in its frame,
and the whole when it gets to the end of `main`. -/
structure Safe (run : Run) (past : List Seen) (s : System) : Prop where
  loop : ∃ recvs sends, breakLoop run.status recvs sends = (s.server.how, serverCalls past)
  main : ∀ status ∈ s.client.status, ∃ numBytes : Int,
    (numBytes = (requested past).length ∨ numBytes = -1 ∧ requested past = []) ∧
      run.client.main run.echoStr numBytes (results past) = ⟨printed past, status⟩
  front : printed past <+: run.client.banner ++ run.echoStr ++ [LF]
  whole : s.client = .done → printed past = run.client.banner ++ run.echoStr ++ [LF]

theorem Flow.safe {run : Run} {past : List Seen} {s : System} (flow : Flow run past s) : Safe run past s := by
  obtain ⟨client, server, toClient, toServer⟩ := s
  have front := flow.front
  have here := flow.client
  have loop := flow.serving.loop
  clear flow
  generalize asks : requested past = asked at here
  generalize had : results past = answers at here
  generalize came : received past = got at here front
  generalize shows : printed past = shown at here
  cases here with
  | sendEcho => exact ⟨loop, by simp [Client.status], by rw [shows]; exact List.nil_prefix, by simp⟩
  | receive more inLoop =>
    refine ⟨loop, by simp [Client.status], ?_, by simp⟩
    have inside : got <+: run.echoStr := (List.prefix_append _ _).trans front
    rw [shows, List.append_assoc, List.prefix_append_right_inj]
    exact inside.trans (List.prefix_append _ _)
  | done main =>
    refine ⟨loop, fun status ended => ⟨_, Or.inl rfl, ?_⟩, shows ▸ List.prefix_rfl, fun _ => shows⟩
    rw [asks, had, shows, main, ← Option.some.inj ended]
  | unsent part result main =>
    have nothing : printed past <+: run.client.banner ++ run.echoStr ++ [LF] := shows ▸ List.nil_prefix
    refine ⟨loop, fun status ended => ⟨_, by rw [asks]; exact result, ?_⟩, nothing, by simp⟩
    rw [had, shows, main, ← Option.some.inj ended]
  | broken main =>
    refine ⟨loop, fun status ended => ⟨_, Or.inl rfl, ?_⟩, ?_, by simp⟩
    · rw [asks, had, shows, main, ← Option.some.inj ended]
    · have inside : got <+: run.echoStr := (List.prefix_append _ _).trans front
      rw [shows, List.append_assoc, List.prefix_append_right_inj]
      exact inside.trans (List.prefix_append _ _)

end SocketPrograms.EchoSystem
