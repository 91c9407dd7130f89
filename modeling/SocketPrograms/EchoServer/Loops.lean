import SocketPrograms.Lib.CString

/-! The echo loop in its two shapes: `HandleClient` of ch06, which leaves its loop by `break`, and
`handle_tcp_client` of `TCP_Echo_Server`, which receives once in front of it. -/

namespace SocketPrograms.EchoServer
open Lib CString

def EXIT_SUCCESS : Nat := 0
def EXIT_FAILURE : Nat := 1

/-- A call and its result. A received `none` is the result -1, a received empty list the
result 0. -/
inductive Call where
  | recv (got : Option Bytes)
  | send (data : Bytes) (result : Int)
  | close
deriving DecidableEq, Repr

/-- How a function ends: it waits in a call that has no result yet, it returns, or a message on
the standard error is the last that the process does. -/
inductive Ended where
  | waiting
  | returned
  | systemMsg (msg : String) (status : Nat)
  | userMsg (msg detail : String) (status : Nat)
deriving DecidableEq, Repr

/-- `while (1)` with the results of the calls of `recv` and of `send` that follow, and the status
with which a failed system call ends the process. -/
def breakLoop (status : Nat) : List (Option Bytes) → List Int → Ended × List Call
  | [], _ => (.waiting, [])
  | none :: _, _ => (.systemMsg "recv() failed" status, [.recv none])
  | some buf :: recvs, sends =>
      if buf = [] then (.returned, [.recv (some buf)])
      else
        match sends with
        | [] => (.waiting, [.recv (some buf)])
        | sent :: sends =>
          if sent < 0 then (.systemMsg "send() failed" status, [.recv (some buf), .send buf sent])
          else if sent ≠ buf.length then
            (.userMsg "send()" "sent unexpected number of bytes" EXIT_FAILURE, [.recv (some buf), .send buf sent])
          else
            let later := breakLoop status recvs sends
            (later.1, .recv (some buf) :: .send buf sent :: later.2)

def handleClient : List (Option Bytes) → List Int → Ended × List Call := breakLoop EXIT_FAILURE

def primedLoop (status : Nat) : Bytes → List (Option Bytes) → List Int → Ended × List Call
  | buf, recvs, sends =>
      if buf = [] then (.returned, [.close])
      else
        match sends with
        | [] => (.waiting, [])
        | sent :: sends =>
          if sent < 0 then (.systemMsg "send() failed" status, [.send buf sent])
          else if sent ≠ buf.length then
            (.userMsg "send()" "sent unexpected number of bytes" EXIT_FAILURE, [.send buf sent])
          else
            match recvs with
            | [] => (.waiting, [.send buf sent])
            | none :: _ => (.systemMsg "recv() failed" status, [.send buf sent, .recv none])
            | some next :: recvs =>
              let later := primedLoop status next recvs sends
              (later.1, .send buf sent :: .recv (some next) :: later.2)

def primed (status : Nat) : List (Option Bytes) → List Int → Ended × List Call
  | [], _ => (.waiting, [])
  | none :: _, _ => (.systemMsg "recv() failed" status, [.recv none])
  | some buf :: recvs, sends =>
      let later := primedLoop status buf recvs sends
      (later.1, .recv (some buf) :: later.2)

/-- `die_with_system_message` exits with success. -/
def handleTcpClient : List (Option Bytes) → List Int → Ended × List Call := primed EXIT_SUCCESS

def received (calls : List Call) : Bytes :=
  calls.flatMap fun
    | .recv (some buf) => buf
    | _ => []

def accepted (calls : List Call) : Bytes :=
  calls.flatMap fun
    | .send data result => data.take result.toNat
    | _ => []

/-- What is sent back is what came, up to where the loop ends. -/
structure Echoes (run : Ended × List Call) : Prop where
  front : accepted run.2 <+: received run.2
  whole : run.1 = .returned → accepted run.2 = received run.2

structure Agree (recvs : List (Option Bytes)) (sends : List Int) : Prop where
  calls : (handleTcpClient recvs sends).2.filter (· ≠ .close) = (handleClient recvs sends).2
  ended : (handleTcpClient recvs sends).1 = (handleClient recvs sends).1
  first : Echoes (handleClient recvs sends)
  second : Echoes (handleTcpClient recvs sends)

def NoFailure : List (Option Bytes) → List Int → Prop
  | [], _ => True
  | none :: _, _ => False
  | some buf :: recvs, sends =>
      buf = [] ∨
        match sends with
        | [] => True
        | sent :: sends => 0 ≤ sent ∧ (sent ≠ buf.length ∨ NoFailure recvs sends)

def closing (ended : Ended) : List Call := if ended = .returned then [.close] else []

theorem primedLoop_eq (status : Nat) (buf : Bytes) (recvs : List (Option Bytes)) (sends : List Int) :
    (primedLoop status buf recvs sends).1 = (breakLoop status (some buf :: recvs) sends).1 ∧
      .recv (some buf) :: (primedLoop status buf recvs sends).2 =
        (breakLoop status (some buf :: recvs) sends).2 ++ closing (breakLoop status (some buf :: recvs) sends).1 := by
  induction recvs generalizing buf sends with
  | nil =>
    unfold primedLoop breakLoop
    by_cases empty : buf = []
    · simp [empty, closing]
    cases sends with
    | nil => simp [empty, closing]
    | cons sent sends =>
      simp only [empty, if_false]
      split_ifs <;> simp [breakLoop, closing]
  | cons result recvs ih =>
    unfold primedLoop breakLoop
    by_cases empty : buf = []
    · simp [empty, closing]
    cases sends with
    | nil => simp [empty, closing]
    | cons sent sends =>
      simp only [empty, if_false]
      split_ifs
      · simp [closing]
      · simp [closing]
      · cases result with
        | none => simp [breakLoop, closing]
        | some next =>
          obtain ⟨ended, calls⟩ := ih next sends
          simp only [ended, calls, List.cons_append, and_self]

theorem primed_eq (status : Nat) (recvs : List (Option Bytes)) (sends : List Int) :
    (primed status recvs sends).1 = (breakLoop status recvs sends).1 ∧
      (primed status recvs sends).2 =
        (breakLoop status recvs sends).2 ++ closing (breakLoop status recvs sends).1 := by
  cases recvs with
  | nil => simp [primed, breakLoop, closing]
  | cons result recvs =>
    cases result with
    | none => simp [primed, breakLoop, closing]
    | some buf => exact primedLoop_eq status buf recvs sends

theorem breakLoop_status (status status' : Nat) (recvs : List (Option Bytes)) (sends : List Int) :
    (breakLoop status recvs sends).2 = (breakLoop status' recvs sends).2 ∧
      ((breakLoop status recvs sends).1 = (breakLoop status' recvs sends).1 ↔
        status = status' ∨ NoFailure recvs sends) := by
  induction recvs generalizing sends with
  | nil => simp [breakLoop, NoFailure]
  | cons result recvs ih =>
    cases result with
    | none => simp [breakLoop, NoFailure]
    | some buf =>
      unfold breakLoop NoFailure
      by_cases empty : buf = []
      · simp [empty]
      cases sends with
      | nil => simp [empty]
      | cons sent sends =>
        obtain ⟨calls, ended⟩ := ih sends
        simp only [empty, if_false, false_or]
        split_ifs with failed short
        · have negative : ¬ 0 ≤ sent := Int.not_le.mpr failed
          simp [negative]
        · have sign : 0 ≤ sent := Int.not_lt.mp failed
          simp [short, sign]
        · rw [not_not] at short
          simp [calls, ended, short]

@[simp] theorem accepted_append (first second : List Call) :
    accepted (first ++ second) = accepted first ++ accepted second := List.flatMap_append

@[simp] theorem received_append (first second : List Call) :
    received (first ++ second) = received first ++ received second := List.flatMap_append

theorem accepted_recv (got : Option Bytes) (calls : List Call) :
    accepted (.recv got :: calls) = accepted calls := rfl

theorem accepted_send (data : Bytes) (result : Int) (calls : List Call) :
    accepted (.send data result :: calls) = data.take result.toNat ++ accepted calls := rfl

theorem received_recv (buf : Bytes) (calls : List Call) :
    received (.recv (some buf) :: calls) = buf ++ received calls := rfl

theorem received_send (data : Bytes) (result : Int) (calls : List Call) :
    received (.send data result :: calls) = received calls := rfl

/-- One turn sends back a part of what it received, and the next turn follows only when that is
the whole. -/
theorem breakLoop_echoes (status : Nat) (recvs : List (Option Bytes)) (sends : List Int) :
    Echoes (breakLoop status recvs sends) := by
  induction recvs generalizing sends with
  | nil => exact ⟨List.prefix_rfl, fun _ => rfl⟩
  | cons result recvs ih =>
    cases result with
    | none => exact ⟨List.prefix_rfl, fun _ => rfl⟩
    | some buf =>
      unfold breakLoop
      by_cases empty : buf = []
      · subst empty
        exact ⟨List.prefix_rfl, fun _ => rfl⟩
      rw [if_neg empty]
      cases sends with
      | nil => exact ⟨List.nil_prefix, fun returned => by cases returned⟩
      | cons sent sends =>
        have part : accepted [.recv (some buf), .send buf sent] <+: received [.recv (some buf), .send buf sent] := by
          have taken : accepted [.recv (some buf), .send buf sent] = buf.take sent.toNat ++ [] := rfl
          have came : received [.recv (some buf), .send buf sent] = buf ++ [] := rfl
          rw [taken, came, List.append_nil, List.append_nil]
          exact List.take_prefix _ buf
        dsimp only
        split_ifs with failed short
        · exact ⟨part, fun returned => by cases returned⟩
        · exact ⟨part, fun returned => by cases returned⟩
        · have all : buf.take sent.toNat = buf := List.take_of_length_le (by omega)
          have later := ih sends
          constructor
          · rw [accepted_recv, accepted_send, received_recv, received_send, all, List.prefix_append_right_inj]
            exact later.front
          · intro returned
            rw [accepted_recv, accepted_send, received_recv, received_send, all, later.whole returned]

theorem echoes_closing {ended : Ended} {calls : List Call} (echoes : Echoes (ended, calls)) :
    Echoes (ended, calls ++ closing ended) := by
  have silent : accepted (closing ended) = [] ∧ received (closing ended) = [] := by
    unfold closing
    split_ifs <;> exact ⟨rfl, rfl⟩
  constructor
  · rw [accepted_append, received_append, silent.1, silent.2, List.append_nil, List.append_nil]
    exact echoes.front
  · intro returned
    rw [accepted_append, received_append, silent.1, silent.2, List.append_nil, List.append_nil]
    exact echoes.whole returned

theorem breakLoop_open (status : Nat) (recvs : List (Option Bytes)) (sends : List Int) :
    ∀ call ∈ (breakLoop status recvs sends).2, call ≠ .close := by
  induction recvs generalizing sends with
  | nil => simp [breakLoop]
  | cons result recvs ih =>
    cases result with
    | none => simp [breakLoop]
    | some buf =>
      unfold breakLoop
      by_cases empty : buf = []
      · simp [empty]
      cases sends with
      | nil => simp [empty]
      | cons sent sends =>
        have later := ih sends
        simp only [empty, if_false]
        split_ifs
        · simp
        · simp
        · simpa using later

theorem handleTcpClient_calls (recvs : List (Option Bytes)) (sends : List Int) :
    (handleTcpClient recvs sends).2.filter (· ≠ .close) = (handleClient recvs sends).2 := by
  have same := (breakLoop_status EXIT_SUCCESS EXIT_FAILURE recvs sends).1
  have still := breakLoop_open EXIT_SUCCESS recvs sends
  have closed (ended : Ended) : (closing ended).filter (· ≠ .close) = [] := by
    unfold closing
    split_ifs <;> rfl
  rw [handleTcpClient, (primed_eq EXIT_SUCCESS recvs sends).2, List.filter_append, closed, List.append_nil,
    List.filter_eq_self.mpr fun call member => by simpa using still call member, same, handleClient]

theorem handleTcpClient_echoes (recvs : List (Option Bytes)) (sends : List Int) :
    Echoes (handleTcpClient recvs sends) := by
  have pair : handleTcpClient recvs sends = ((breakLoop EXIT_SUCCESS recvs sends).1,
      (breakLoop EXIT_SUCCESS recvs sends).2 ++ closing (breakLoop EXIT_SUCCESS recvs sends).1) :=
    Prod.ext (primed_eq EXIT_SUCCESS recvs sends).1 (primed_eq EXIT_SUCCESS recvs sends).2
  rw [pair]
  exact echoes_closing (breakLoop_echoes EXIT_SUCCESS recvs sends)

/-- Both shapes make the same calls, and both echo. They end alike exactly when no call fails:
of a failed call `handle_tcp_client` makes a success of the process. -/
theorem agree_iff (recvs : List (Option Bytes)) (sends : List Int) :
    ((handleTcpClient recvs sends).2.filter (· ≠ .close) = (handleClient recvs sends).2 ∧
      Echoes (handleClient recvs sends) ∧ Echoes (handleTcpClient recvs sends)) ∧
    (Agree recvs sends ↔ NoFailure recvs sends) := by
  have calls := handleTcpClient_calls recvs sends
  have first : Echoes (handleClient recvs sends) := breakLoop_echoes EXIT_FAILURE recvs sends
  have second := handleTcpClient_echoes recvs sends
  have differ : EXIT_SUCCESS ≠ EXIT_FAILURE := by decide
  have ended : (handleTcpClient recvs sends).1 = (handleClient recvs sends).1 ↔ NoFailure recvs sends := by
    rw [handleTcpClient, handleClient, (primed_eq EXIT_SUCCESS recvs sends).1,
      (breakLoop_status EXIT_SUCCESS EXIT_FAILURE recvs sends).2, or_iff_right differ]
  refine ⟨⟨calls, first, second⟩, fun agree => ended.mp agree.ended, fun quiet => ?_⟩
  exact ⟨calls, ended.mpr quiet, first, second⟩

/-- The connection is reset before the first byte. -/
theorem reset_differs : ¬ Agree [none] [] := by
  intro agree
  exact absurd agree.ended (by decide)

end SocketPrograms.EchoServer
