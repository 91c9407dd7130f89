import SocketPrograms.Greeting.Correct

/-! The client and the server of IPv6_TCP_V2 when any call may fail and any `send` may take a
part only. -/

namespace SocketPrograms.Greeting
open Lib CString

def Server.owes (toServer : Bytes) : Server → Bytes
  | .sendGreetings => GREETING_MSG ++ toServer
  | .receive => toServer
  | .sendBack buf => buf ++ toServer
  | .closed | .failed => []

def System.coming (s : System) : Bytes := s.toClient ++ s.server.owes s.toServer

def Run.report (run : Run) : Bytes := greetingLine ++ run.echoStr ++ [LF]

theorem Server.owes_append (server : Server) (toServer sent : Bytes) :
    server.owes (toServer ++ sent) <+: server.owes toServer ++ sent := by
  cases server with
  | sendGreetings | sendBack buf => simp [Server.owes]
  | receive => exact List.prefix_rfl
  | closed | failed => exact List.nil_prefix

/-- Whatever its calls return, the server adds nothing to what the client can get. -/
theorem serverStep_coming (answer : Option Nat) (s : System) :
    (serverStep answer s).client = s.client ∧ (serverStep answer s).coming <+: s.coming := by
  obtain ⟨client, server, toClient, toServer⟩ := s
  unfold serverStep
  cases server with
  | sendGreetings =>
    cases answer with
    | none => exact ⟨rfl, (List.prefix_append_right_inj _).mpr List.nil_prefix⟩
    | some count =>
      have part : GREETING_MSG.take count <+: GREETING_MSG := List.take_prefix _ _
      refine ⟨rfl, ?_⟩
      simp only [send, Option.map_some, System.coming]
      split_ifs with less
      · rw [Server.owes, Server.owes, List.append_nil, List.prefix_append_right_inj]
        exact part.trans (List.prefix_append _ _)
      · have whole : GREETING_MSG.take count = GREETING_MSG :=
          part.eq_of_length (le_antisymm part.length_le (not_lt.mp less))
        simp [Server.owes, whole]
  | receive =>
    rcases recv_cases BUF_SIZE toServer client.terminated answer with
      blocked | failed | ⟨bytes, rest, got, split, -⟩
    · simp only [blocked]
      exact ⟨trivial, List.prefix_rfl⟩
    · simp only [failed]
      exact ⟨trivial, (List.prefix_append_right_inj _).mpr List.nil_prefix⟩
    · simp only [got]
      refine ⟨trivial, (List.prefix_append_right_inj _).mpr ?_⟩
      split_ifs with nothing
      · exact List.nil_prefix
      · rw [split]
        exact List.prefix_rfl
  | sendBack buf =>
    cases answer with
    | none => exact ⟨rfl, (List.prefix_append_right_inj _).mpr List.nil_prefix⟩
    | some count =>
      have part : buf.take count <+: buf := List.take_prefix _ _
      refine ⟨rfl, ?_⟩
      simp only [send, Option.map_some, System.coming]
      split_ifs with all
      · simp [Server.owes, part.eq_of_length all]
      · rw [Server.owes, Server.owes, List.append_nil, List.prefix_append_right_inj]
        exact part.trans (List.prefix_append _ _)
  | closed | failed => exact ⟨rfl, List.prefix_rfl⟩

/-- Where the client is, with what it has printed. What it has got and what it can still get is
a beginning of what it waits for. -/
inductive Stands (run : Run) : Bytes → System → Prop where
  | greeting {buf got : Bytes} {s : System} (phase : s.client = .receiveGreetings buf got.length)
      (size : buf.length = BUF_SIZE) (front : buf.take got.length = got) (more : got.length < GREETING_MSG.length)
      (due : got ++ s.coming <+: GREETING_MSG) : Stands run [] s
  | ready {s : System} (phase : s.client = .sendEcho) (due : s.coming = []) : Stands run greetingLine s
  | echoing {buf shown : Bytes} {s : System} (phase : s.client = .receiveEcho buf shown.length)
      (size : buf.length = BUF_SIZE) (more : shown.length < run.echoStr.length)
      (due : shown ++ s.coming <+: run.echoStr) : Stands run (greetingLine ++ shown) s
  | done {s : System} (phase : s.client = .done) : Stands run run.report s
  | failed {printed : Bytes} {s : System} (phase : s.client = .failed) (front : printed <+: run.report)
      (short : printed.length < run.report.length) : Stands run printed s

section
variable {run : Run} {printed : Bytes} {s : System}

theorem Stands.part (stands : Stands run printed s) (unfinished : s.client ≠ .done) :
    printed <+: run.report ∧ printed.length < run.report.length := by
  cases stands with
  | greeting =>
    refine ⟨List.nil_prefix, ?_⟩
    rw [Run.report, List.length_append]
    exact Nat.succ_pos _
  | ready => exact ⟨⟨run.echoStr ++ [LF], by rw [Run.report, List.append_assoc]⟩, by simp [Run.report]⟩
  | @echoing buf shown _ phase size more due =>
    have inside : shown <+: run.echoStr := (List.prefix_append _ _).trans due
    refine ⟨?_, ?_⟩
    · rw [Run.report, List.append_assoc, List.prefix_append_right_inj]
      exact inside.trans (List.prefix_append _ _)
    · simp only [Run.report, List.length_append]
      omega
  | done phase => exact absurd phase unfinished
  | failed phase front short => exact ⟨front, short⟩

theorem Stands.fail (stands : Stands run printed s) (unfinished : s.client ≠ .done) (s' : System)
    (phase : s'.client = .failed) : Stands run (printed ++ []) s' := by
  have part := stands.part unfinished
  rw [List.append_nil]
  exact .failed phase part.1 part.2

theorem Stands.server (stands : Stands run printed s) (answer : Option Nat) :
    Stands run printed (serverStep answer s) := by
  obtain ⟨same, less⟩ := serverStep_coming answer s
  cases stands with
  | greeting phase size front more due =>
    exact .greeting (same.trans phase) size front more (((List.prefix_append_right_inj _).mpr less).trans due)
  | ready phase due =>
    rw [due] at less
    exact .ready (same.trans phase) (List.prefix_nil.mp less)
  | echoing phase size more due =>
    exact .echoing (same.trans phase) size more (((List.prefix_append_right_inj _).mpr less).trans due)
  | done phase => exact .done (same.trans phase)
  | failed phase front short => exact .failed (same.trans phase) front short

theorem Stands.echoLoop {buf shown toClient toServer : Bytes} {server : Server} (size : buf.length = BUF_SIZE)
    (due : shown ++ (toClient ++ server.owes toServer) <+: run.echoStr) :
    Stands run (greetingLine ++ (shown ++ (run.echoLoop buf shown.length).2))
      ⟨(run.echoLoop buf shown.length).1, server, toClient, toServer⟩ := by
  have inside : shown <+: run.echoStr := (List.prefix_append _ _).trans due
  unfold Run.echoLoop
  split_ifs with more
  · rw [List.append_nil]
    exact .echoing rfl size more due
  · have whole : shown = run.echoStr := inside.eq_of_length (le_antisymm inside.length_le (not_lt.mp more))
    rw [whole, ← List.append_assoc]
    exact .done rfl

theorem Stands.greeted {buf got bytes rest toServer : Bytes} {server : Server} (size : buf.length = BUF_SIZE)
    (front : buf.take got.length = got)
    (due : got ++ (bytes ++ rest ++ server.owes toServer) <+: GREETING_MSG) :
    let total := got.length + bytes.length
    let stored := storeString buf got.length bytes
    let next := if total < GREETING_MSG.length then (Client.receiveGreetings stored total, [])
      else checkGreeting stored total
    Stands run next.2 ⟨next.1, server, rest, toServer⟩ := by
  have five : GREETING_MSG.length = 5 := rfl
  have here : got ++ bytes ++ (rest ++ server.owes toServer) <+: GREETING_MSG := by
    simpa only [List.append_assoc] using due
  have inside : got ++ bytes <+: GREETING_MSG := (List.prefix_append _ _).trans here
  have fits := inside.length_le
  rw [List.length_append] at fits
  have room : got.length + bytes.length < buf.length := by
    rw [size, BUF_SIZE]
    omega
  have length : got.length + bytes.length = (got ++ bytes).length := List.length_append.symm
  intro total stored next
  by_cases more : total < GREETING_MSG.length
  · have stays : next = (.receiveGreetings stored (got ++ bytes).length, []) := by
      rw [← length]
      exact if_pos more
    rw [stays]
    have kept : stored.take (got ++ bytes).length = got ++ bytes := by
      rw [← length, take_storeString room, front]
    exact .greeting rfl ((length_storeString room).trans size) kept (length ▸ more) here
  · have whole : got ++ bytes = GREETING_MSG := inside.eq_of_length (by omega)
    have clean : NUL ∉ buf.take got.length ++ bytes := by
      rw [front, whole]
      exact greeting_clean
    have read : cString stored = GREETING_MSG := by rw [cString_storeString room clean, front, whole]
    have passes : next = (.sendEcho, greetingLine) := (if_neg more).trans (checkGreeting_right read total)
    rw [passes]
    rw [whole] at here
    have nothing : rest ++ server.owes toServer = [] := by
      have bound := here.length_le
      rw [List.length_append] at bound
      exact List.eq_nil_of_length_eq_zero (by omega)
    exact .ready rfl nothing

theorem Stands.echoed {buf shown bytes rest toServer : Bytes} {server : Server} (size : buf.length = BUF_SIZE)
    (fits : bytes.length < BUF_SIZE) (due : shown ++ (bytes ++ rest ++ server.owes toServer) <+: run.echoStr) :
    let stored := storeString buf 0 bytes
    let next := run.echoLoop stored (shown.length + bytes.length)
    Stands run (greetingLine ++ shown ++ (cString stored ++ next.2)) ⟨next.1, server, rest, toServer⟩ := by
  have room : 0 + bytes.length < buf.length := by omega
  have here : shown ++ bytes ++ (rest ++ server.owes toServer) <+: run.echoStr := by
    simpa only [List.append_assoc] using due
  have clean : NUL ∉ bytes := by
    intro member
    apply run.clean
    exact ((List.prefix_append _ _).trans here).subset (List.mem_append_right _ member)
  have read : cString (storeString buf 0 bytes) = bytes := by
    rw [cString_storeString room (by rwa [List.take_zero, List.nil_append]), List.take_zero, List.nil_append]
  intro stored next
  have looped : Stands run _ _ := .echoLoop ((length_storeString room).trans size) here
  rw [List.length_append] at looped
  rw [read, List.append_assoc, ← List.append_assoc shown]
  exact looped

theorem Stands.client (stands : Stands run printed s) (answer : Option Nat) :
    Stands run (printed ++ (run.clientStep answer s).2) (run.clientStep answer s).1 := by
  obtain ⟨client, server, toClient, toServer⟩ := s
  have here := stands
  unfold Run.clientStep
  cases stands with
  | @greeting buf got _ phase size front more due =>
    obtain rfl : client = _ := phase
    rcases recv_cases (BUF_SIZE - got.length - 1) toClient server.hungUp answer with
      blocked | failed | ⟨bytes, rest, received, split, -⟩
    · simpa only [blocked, List.append_nil] using here
    · simp only [failed]
      exact here.fail (by simp) _ rfl
    · have part : got ++ (bytes ++ rest ++ server.owes toServer) <+: GREETING_MSG := by
        rw [← split]
        exact due
      simp only [received, List.nil_append]
      exact Stands.greeted size front part
  | ready phase due =>
    obtain rfl : client = _ := phase
    cases answer with
    | none => exact here.fail (by simp) _ rfl
    | some count =>
      simp only [send, Option.map_some]
      split_ifs with all
      · have whole : run.echoStr.take count = run.echoStr := (List.take_prefix _ _).eq_of_length all
        have idle : toClient = [] ∧ server.owes toServer = [] := List.append_eq_nil_iff.mp due
        have asked : ([] : Bytes) ++ ([] ++ server.owes (toServer ++ run.echoStr)) <+: run.echoStr := by
          have more := server.owes_append toServer run.echoStr
          rwa [idle.2] at more
        rw [whole, idle.1]
        exact Stands.echoLoop run.echoBuf.2 asked
      · exact here.fail (by simp) _ rfl
  | @echoing buf shown _ phase size more due =>
    obtain rfl : client = _ := phase
    rcases recv_cases (BUF_SIZE - 1) toClient server.hungUp answer with
      blocked | failed | ⟨bytes, rest, received, split, fits⟩
    · simpa only [blocked, List.append_nil] using here
    · simp only [failed]
      exact here.fail (by simp) _ rfl
    · have part : shown ++ (bytes ++ rest ++ server.owes toServer) <+: run.echoStr := by
        rw [← split]
        exact due
      have fits : bytes.length < BUF_SIZE := Nat.lt_of_le_of_lt fits (by decide)
      simp only [received]
      exact Stands.echoed size fits part
  | done phase =>
    obtain rfl : client = _ := phase
    simpa only [List.append_nil] using here
  | failed phase front short =>
    obtain rfl : client = _ := phase
    simpa only [List.append_nil] using here

theorem Stands.step (stands : Stands run printed s) (turn : Turn) :
    Stands run (printed ++ (run.step turn s).2) (run.step turn s).1 := by
  unfold Run.step
  cases turn.party with
  | client => exact stands.client turn.answer
  | server =>
    rw [List.append_nil]
    exact stands.server turn.answer

theorem Stands.valid (stands : Stands run printed s) : s.client ≠ .invalidGreeting := by
  intro rejected
  cases stands with
  | greeting phase | ready phase | echoing phase | done phase | failed phase => simp [rejected] at phase

theorem Stands.done_iff (stands : Stands run printed s) : s.client = .done ↔ printed = run.report := by
  constructor
  · intro last
    cases stands with
    | done => rfl
    | greeting phase | ready phase | echoing phase | failed phase => simp [last] at phase
  · intro whole
    by_contra unfinished
    have short := (stands.part unfinished).2
    rw [whole] at short
    exact lt_irrefl _ short

end

theorem stands_start (run : Run) : Stands run [] run.start :=
  @Stands.greeting run run.greetingBuf.1 [] _ rfl run.greetingBuf.2 rfl (by decide) List.prefix_rfl

/-- Whatever the calls of the two programs return and however they interleave, the client never
rejects the greeting and prints a beginning of its report: all of it at the end of `main`, and
only there. -/
theorem greeting_safe (run : Run) (turns : List Turn) :
    let now := run.protocol.run turns run.start
    now.1.client ≠ .invalidGreeting ∧ now.2 <+: GREETING_MSG ++ [LF] ++ run.echoStr ++ [LF] ∧
      (now.1.client = .done ↔ now.2 = GREETING_MSG ++ [LF] ++ run.echoStr ++ [LF]) := by
  intro now
  have stands : Stands run now.2 now.1 :=
    run.protocol.invariant_all (Stands run) (fun _ _ turn stands => stands.step turn) turns (stands_start run)
  refine ⟨stands.valid, ?_, stands.done_iff⟩
  by_cases last : now.1.client = .done
  · exact (stands.done_iff.mp last).symm ▸ List.prefix_rfl
  · exact (stands.part last).1

end SocketPrograms.Greeting
