import SocketPrograms.Greeting.Protocol

/-! Whatever the segmentation of the two streams and the order of the calls, the client reads
the greeting and prints its echo string. -/

namespace SocketPrograms.Greeting
open Lib CString

def greetingLine : Bytes := GREETING_MSG ++ [LF]

inductive Holds : Server → Bytes → Prop where
  | nothing : Holds .receive []
  | bytes {buf : Bytes} (nonempty : buf ≠ []) : Holds (.sendBack buf) buf

/-- What is printed in which state. The greeting is read before any byte goes to the server,
and the echo string is what is printed and what is on its way, in this order. -/
inductive Inv (run : Run) : Bytes → System → Prop where
  | connected : Inv run [] run.start
  | greeted {buf got coming : Bytes} (size : buf.length = BUF_SIZE) (front : buf.take got.length = got)
      (split : GREETING_MSG = got ++ coming) (more : coming ≠ []) :
      Inv run [] ⟨.receiveGreetings buf got.length, .receive, coming, []⟩
  | ready : Inv run greetingLine ⟨.sendEcho, .receive, [], []⟩
  | echoing {buf printed toClient held toServer : Bytes} {server : Server} (size : buf.length = BUF_SIZE)
      (split : run.echoStr = printed ++ toClient ++ held ++ toServer) (holds : Holds server held)
      (more : printed.length < run.echoStr.length) :
      Inv run (greetingLine ++ printed) ⟨.receiveEcho buf printed.length, server, toClient, toServer⟩
  | done {server : Server} (idle : server = .receive ∨ server = .closed) :
      Inv run (greetingLine ++ run.echoStr ++ [LF]) ⟨.done, server, [], []⟩

/-! ### Calls -/

theorem recv_blocked {limit : Nat} (count : Nat) : recv limit [] false (some count) = .blocked := rfl

theorem recv_got {limit count : Nat} {stream : Bytes} (nonempty : stream ≠ []) (hungUp : Bool)
    (room : 0 < limit) (positive : 0 < count) :
    ∃ bytes rest, recv limit stream hungUp (some count) = .got bytes rest ∧ stream = bytes ++ rest ∧
      bytes ≠ [] ∧ bytes.length ≤ limit := by
  have here : recv limit stream hungUp (some count) =
      .got (stream.take (min count limit)) (stream.drop (min count limit)) := by simp [recv, nonempty]
  have some_bytes : 0 < min count limit := by omega
  refine ⟨_, _, here, (List.take_append_drop _ stream).symm, ?_, ?_⟩
  · simp [nonempty]
    omega
  · rw [List.length_take]
    omega

theorem recv_cases (limit : Nat) (stream : Bytes) (hungUp : Bool) (answer : Option Nat) :
    recv limit stream hungUp answer = .blocked ∨ recv limit stream hungUp answer = .failed ∨
      ∃ bytes rest, recv limit stream hungUp answer = .got bytes rest ∧ stream = bytes ++ rest ∧
        bytes.length ≤ limit := by
  cases answer with
  | none => exact Or.inr (Or.inl rfl)
  | some count =>
    by_cases empty : stream = []
    · cases hungUp with
      | false => exact Or.inl (by simp [recv, empty])
      | true => exact Or.inr (Or.inr ⟨[], [], by simp [recv, empty], empty, Nat.zero_le _⟩)
    · have split := (List.take_append_drop (min count limit) stream).symm
      have fits : (stream.take (min count limit)).length ≤ limit := by
        rw [List.length_take]
        omega
      exact Or.inr (Or.inr ⟨_, _, by simp [recv, empty], split, fits⟩)

theorem send_all {data : Bytes} {count : Nat} (all : data.length ≤ count) : send data (some count) = some data := by
  simp [send, List.take_of_length_le all]

theorem storeString_eq {buf bytes : Bytes} {pos : Nat} (room : pos + bytes.length < buf.length) :
    storeString buf pos bytes =
      buf.take pos ++ bytes ++ NUL :: buf.drop (pos + bytes.length + 1) := by
  have stored : (buf.take pos ++ bytes).length = pos + bytes.length := by
    rw [List.length_append, List.length_take]
    omega
  have ahead : buf.drop (pos + bytes.length) = buf[pos + bytes.length] :: buf.drop (pos + bytes.length + 1) :=
    List.drop_eq_getElem_cons room
  rw [storeString, List.set_append_right _ _ (by omega), stored, Nat.sub_self, ahead, List.set_cons_zero]

theorem length_storeString {buf bytes : Bytes} {pos : Nat} (room : pos + bytes.length < buf.length) :
    (storeString buf pos bytes).length = buf.length := by
  rw [storeString_eq room]
  simp only [List.length_append, List.length_take, List.length_cons, List.length_drop]
  omega

theorem cString_storeString {buf bytes : Bytes} {pos : Nat} (room : pos + bytes.length < buf.length)
    (clean : NUL ∉ buf.take pos ++ bytes) : cString (storeString buf pos bytes) = buf.take pos ++ bytes := by
  rw [storeString_eq room, cString_append_nul clean]

theorem take_storeString {buf bytes : Bytes} {pos : Nat} (room : pos + bytes.length < buf.length) :
    (storeString buf pos bytes).take (pos + bytes.length) = buf.take pos ++ bytes := by
  have stored : pos + bytes.length = (buf.take pos ++ bytes).length := by
    rw [List.length_append, List.length_take]
    omega
  rw [storeString_eq room, stored, List.take_left]

theorem greeting_clean : NUL ∉ GREETING_MSG := by decide

theorem checkGreeting_right {buf : Bytes} (same : cString buf = GREETING_MSG) (total : Nat) :
    checkGreeting buf total = (.sendEcho, greetingLine) := by
  simp [checkGreeting, sameUpTo, same, cString_of_clean greeting_clean, puts, greetingLine]

/-! ### Steps -/

section steps
variable {run : Run} {count : Nat}

theorem client_greeted {buf got coming : Bytes} (size : buf.length = BUF_SIZE) (front : buf.take got.length = got)
    (split : GREETING_MSG = got ++ coming) (more : coming ≠ []) (positive : 0 < count) :
    Inv run (run.clientStep (some count) ⟨.receiveGreetings buf got.length, .receive, coming, []⟩).2
      (run.clientStep (some count) ⟨.receiveGreetings buf got.length, .receive, coming, []⟩).1 := by
  have total : got.length + coming.length = GREETING_MSG.length := by rw [split, List.length_append]
  have five : GREETING_MSG.length = 5 := rfl
  have room : 0 < BUF_SIZE - got.length - 1 := by
    simp only [BUF_SIZE]
    omega
  obtain ⟨bytes, rest, received, parts, nonempty, fits⟩ := recv_got more false room positive
  have inside : got.length + bytes.length < buf.length := by omega
  have whole : GREETING_MSG = got ++ bytes ++ rest := by rw [split, parts, List.append_assoc]
  have count' : got.length + bytes.length = (got ++ bytes).length := List.length_append.symm
  have stored := take_storeString inside
  rw [front, count'] at stored
  simp only [Run.clientStep, Server.hungUp, received]
  by_cases again : got.length + bytes.length < GREETING_MSG.length
  · have coming' : rest ≠ [] := by
      intro nothing
      rw [whole, nothing, List.append_nil, count'] at again
      exact lt_irrefl _ again
    simp only [if_pos again]
    rw [count']
    exact .greeted ((length_storeString inside).trans size) stored whole coming'
  · have nothing : rest = [] := by
      have sizes := congrArg List.length whole
      simp only [List.length_append] at sizes
      exact List.eq_nil_of_length_eq_zero (by omega)
    rw [nothing, List.append_nil] at whole
    have clean : NUL ∉ buf.take got.length ++ bytes := by
      rw [front, ← whole]
      exact greeting_clean
    have read : cString (storeString buf got.length bytes) = GREETING_MSG := by
      rw [cString_storeString inside clean, front, whole]
    simp only [if_neg again, checkGreeting_right read, nothing]
    exact .ready

theorem Inv.echoLoop {buf printed toClient held toServer : Bytes} {server : Server}
    (size : buf.length = BUF_SIZE) (split : run.echoStr = printed ++ toClient ++ held ++ toServer)
    (holds : Holds server held) :
    Inv run (greetingLine ++ (printed ++ (run.echoLoop buf printed.length).2))
      ⟨(run.echoLoop buf printed.length).1, server, toClient, toServer⟩ := by
  unfold Run.echoLoop
  by_cases more : printed.length < run.echoStr.length
  · rw [if_pos more, List.append_nil]
    exact .echoing size split holds more
  · have sizes := congrArg List.length split
    simp only [List.length_append] at sizes
    have toClient_nil : toClient = [] := List.eq_nil_of_length_eq_zero (by omega)
    have held_nil : held = [] := List.eq_nil_of_length_eq_zero (by omega)
    have toServer_nil : toServer = [] := List.eq_nil_of_length_eq_zero (by omega)
    subst toClient_nil held_nil toServer_nil
    simp only [List.append_nil] at split
    rw [if_neg more, ← split, ← List.append_assoc]
    cases holds with
    | nothing => exact .done (.inl rfl)
    | bytes nonempty => exact absurd rfl nonempty

theorem client_ready (all : run.echoStr.length ≤ count) :
    Inv run (greetingLine ++ (run.clientStep (some count) ⟨.sendEcho, .receive, [], []⟩).2)
      (run.clientStep (some count) ⟨.sendEcho, .receive, [], []⟩).1 := by
  have split : run.echoStr = [] ++ [] ++ [] ++ run.echoStr := rfl
  simp only [Run.clientStep, send_all all, if_true, List.nil_append]
  exact Inv.echoLoop run.echoBuf.2 split .nothing

theorem client_echoing {buf printed toClient held toServer : Bytes} {server : Server}
    (size : buf.length = BUF_SIZE) (split : run.echoStr = printed ++ toClient ++ held ++ toServer)
    (holds : Holds server held) (more : printed.length < run.echoStr.length) (positive : 0 < count) :
    Inv run (greetingLine ++ printed ++
        (run.clientStep (some count) ⟨.receiveEcho buf printed.length, server, toClient, toServer⟩).2)
      (run.clientStep (some count) ⟨.receiveEcho buf printed.length, server, toClient, toServer⟩).1 := by
  have up : server.hungUp = false := by cases holds <;> rfl
  by_cases waiting : toClient = []
  · subst waiting
    simp only [Run.clientStep, up, recv_blocked, List.append_nil]
    exact .echoing size split holds more
  have limit : 0 < BUF_SIZE - 1 := by decide
  obtain ⟨bytes, rest, received, parts, nonempty, fits⟩ := recv_got waiting false limit positive
  have inside : 0 + bytes.length < buf.length := by omega
  have whole : run.echoStr = printed ++ bytes ++ rest ++ held ++ toServer := by
    rw [split, parts]
    simp only [List.append_assoc]
  have clean : NUL ∉ buf.take 0 ++ bytes := by
    intro member
    apply run.clean
    rw [whole]
    rw [List.take_zero, List.nil_append] at member
    simp [member]
  have read := cString_storeString inside clean
  rw [List.take_zero, List.nil_append] at read
  have looped := Inv.echoLoop ((length_storeString inside).trans size) whole holds
  simp only [Run.clientStep, up, received, read]
  rw [List.length_append, List.append_assoc] at looped
  rw [List.append_assoc]
  exact looped

theorem Inv.client {printed : Bytes} {s : System} (inv : Inv run printed s) (positive : 0 < count)
    (all : (run.sends s .client).length ≤ count) :
    Inv run (printed ++ (run.clientStep (some count) s).2) (run.clientStep (some count) s).1 := by
  cases inv with
  | connected => exact .connected
  | greeted size front split more => exact client_greeted size front split more positive
  | ready => exact client_ready all
  | echoing size split holds more => exact client_echoing size split holds more positive
  | done idle =>
    rw [Run.clientStep, List.append_nil]
    exact .done idle

theorem server_echoing {buf printed toClient held toServer : Bytes} {server : Server}
    (size : buf.length = BUF_SIZE) (split : run.echoStr = printed ++ toClient ++ held ++ toServer)
    (holds : Holds server held) (more : printed.length < run.echoStr.length) (positive : 0 < count)
    (all : (run.sends ⟨.receiveEcho buf printed.length, server, toClient, toServer⟩ .server).length ≤ count) :
    Inv run (greetingLine ++ printed)
      (serverStep (some count) ⟨.receiveEcho buf printed.length, server, toClient, toServer⟩) := by
  cases holds with
  | nothing =>
    by_cases waiting : toServer = []
    · subst waiting
      exact .echoing size split .nothing more
    have room : 0 < BUF_SIZE := by decide
    obtain ⟨bytes, rest, received, parts, nonempty, fits⟩ := recv_got waiting false room positive
    simp only [serverStep, Client.terminated, received, if_neg nonempty]
    rw [List.append_nil, parts, ← List.append_assoc] at split
    exact .echoing size split (.bytes nonempty) more
  | bytes nonempty =>
    simp only [Run.sends] at all
    simp only [serverStep, send_all all, if_true]
    have sent : run.echoStr = printed ++ (toClient ++ held) ++ [] ++ toServer := by
      rw [split]
      simp only [List.append_assoc, List.append_nil]
    exact .echoing size sent .nothing more

theorem Inv.server {printed : Bytes} {s : System} (inv : Inv run printed s) (positive : 0 < count)
    (all : (run.sends s .server).length ≤ count) : Inv run printed (serverStep (some count) s) := by
  cases inv with
  | connected =>
    have sent : serverStep (some count) run.start =
        ⟨.receiveGreetings run.greetingBuf.1 0, .receive, GREETING_MSG, []⟩ := by
      simp only [Run.sends, Run.start] at all
      simp [serverStep, Run.start, send_all all]
    have split : GREETING_MSG = [] ++ GREETING_MSG := rfl
    rw [sent]
    exact .greeted run.greetingBuf.2 rfl split (by decide)
  | greeted size front split more => exact .greeted size front split more
  | ready => exact .ready
  | echoing size split holds more => exact server_echoing size split holds more positive all
  | done idle =>
    cases idle with
    | inl receive =>
      subst receive
      exact .done (.inr rfl)
    | inr closed =>
      subst closed
      exact .done (.inr rfl)

theorem Inv.step {printed : Bytes} {s : System} {turn : Turn} (inv : Inv run printed s)
    (reliable : run.Reliable s turn) : Inv run (printed ++ (run.step turn s).2) (run.step turn s).1 := by
  obtain ⟨count, answer, positive, all⟩ := reliable
  unfold Run.step
  rw [Option.mem_def.mp answer]
  cases party : turn.party with
  | client =>
    rw [party] at all
    exact inv.client positive all
  | server =>
    rw [party] at all
    rw [List.append_nil]
    exact inv.server positive all

end steps

theorem Inv.valid {run : Run} {printed : Bytes} {s : System} (inv : Inv run printed s) :
    s.client ≠ .invalidGreeting := by
  cases inv <;> simp [Run.start]

theorem Inv.printed {run : Run} {printed : Bytes} {s : System} (inv : Inv run printed s)
    (ended : s.client.terminated = true) : printed = GREETING_MSG ++ [LF] ++ run.echoStr ++ [LF] := by
  cases inv with
  | done idle => rfl
  | connected => cases ended
  | greeted size front split more => cases ended
  | ready => cases ended
  | echoing size split holds more => cases ended

/-- The client never rejects the greeting. Once it has ended it has printed the greeting and its
echo string, each with a newline. -/
theorem greeting_and_echo (run : Run) (turns : List Turn)
    (reliable : run.protocol.Along (fun _ => run.Reliable) turns [] run.start) :
    (run.protocol.run turns run.start).1.client ≠ .invalidGreeting ∧
      ((run.protocol.run turns run.start).1.client.terminated = true →
        (run.protocol.run turns run.start).2 = GREETING_MSG ++ [LF] ++ run.echoStr ++ [LF]) := by
  have kept := run.protocol.invariant (Inv run) (fun past s turn inv good => inv.step good) .connected reliable
  exact ⟨kept.valid, kept.printed⟩

def twoBytes : Run where
  echoStr := [104, 105]
  clean := by decide
  greetingBuf := ⟨List.replicate BUF_SIZE 65, by simp⟩
  echoBuf := ⟨List.replicate BUF_SIZE 66, by simp⟩

def oneAtATime : List Turn :=
  [⟨.client, some 9⟩, ⟨.server, some 5⟩, ⟨.client, some 2⟩, ⟨.server, some 1⟩, ⟨.client, some 9⟩,
    ⟨.client, some 2⟩, ⟨.server, some 1⟩, ⟨.server, some 1⟩, ⟨.client, some 1⟩, ⟨.server, some 1⟩,
    ⟨.server, some 1⟩, ⟨.client, some 1⟩, ⟨.server, some 1⟩]

theorem two_bytes_echoed :
    twoBytes.protocol.Along (fun _ => twoBytes.Reliable) oneAtATime [] twoBytes.start ∧
      (twoBytes.protocol.run oneAtATime twoBytes.start).1.client = .done ∧
        (twoBytes.protocol.run oneAtATime twoBytes.start).2 = [104, 101, 108, 108, 111, 10, 104, 105, 10] := by
  have reliable : twoBytes.protocol.Along (fun _ => twoBytes.Reliable) oneAtATime [] twoBytes.start := by
    decide +kernel
  have done : (twoBytes.protocol.run oneAtATime twoBytes.start).1.client = .done := by decide +kernel
  have printed := (greeting_and_echo twoBytes oneAtATime reliable).2 (by rw [done]; rfl)
  exact ⟨reliable, done, printed⟩

end SocketPrograms.Greeting
