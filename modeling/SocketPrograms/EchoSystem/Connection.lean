import SocketPrograms.EchoClient.Segmentation
import SocketPrograms.EchoServer.Loops
import SocketPrograms.Greeting.Correct
import SocketPrograms.Lib.Fair

/-! An echo client and an echo server over one connection, from `connect` and `accept` on. A
step is the next system call of one of the two programs with what follows it. The clients
differ as `EchoClient.Client` says; the servers differ in how many bytes they ask for, in the
shape of their loop, which is not seen from here, and in the status of a failure. -/

namespace SocketPrograms.EchoSystem
open Lib CString
open Greeting (Turn Party recv)
open EchoClient (LF EXIT_SUCCESS EXIT_FAILURE)

/-- The client of `ch03/3-2`, and from `send` on that of `ch02-2/IPv4`, whose failures are failures. -/
def ipv4Client : EchoClient.Client := { EchoClient.tcpEchoClient with systemStatus := EXIT_FAILURE }

structure Run where
  client : EchoClient.Client
  echoStr : Bytes
  clean : NUL ∉ echoStr
  /-- the tally of the client does not wrap before the string is complete -/
  exact : ∀ n ≤ echoStr.length, client.tally n = n
  /-- how many bytes the server asks `recv` for: 100 in ch02, 10 in ch02-2 and ch03, and 9 in `main2.c` -/
  limit : Nat
  positive : 0 < limit
  /-- the server's status when a system call fails -/
  status : Nat

inductive Client where
  | sendEcho
  | receive (total : Nat)
  | done
  | exited (status : Nat)
  deriving DecidableEq, Repr

inductive Server where
  | receive
  | sendBack (buf : Bytes)
  | ended (how : EchoServer.Ended)
  deriving DecidableEq, Repr

structure System where
  client : Client
  server : Server
  toClient : Bytes
  toServer : Bytes
  deriving DecidableEq, Repr

inductive Seen where
  /-- the client's `send`, of which `none` is a failure -/
  | sent (taken : Option Bytes)
  /-- a result of the client's `recv` -/
  | got (result : Option Bytes)
  | printed (bytes : Bytes)
  | server (call : EchoServer.Call)
  deriving DecidableEq, Repr

def Client.terminated : Client → Bool
  | .done | .exited _ => true
  | .sendEcho | .receive _ => false

def Server.hungUp : Server → Bool
  | .ended _ => true
  | .receive | .sendBack _ => false

def System.ahead (s : System) : Party → Bytes
  | .client => s.toServer
  | .server => s.toClient

namespace Run
variable (run : Run)

def loop (total : Nat) : Client × Bytes :=
  if total < run.echoStr.length then (.receive total, []) else (.done, [LF])

def clientStep (answer : Option Nat) (s : System) : System × List Seen :=
  match s.client with
  | .sendEcho =>
    match Greeting.send run.echoStr answer with
    | none => ({ s with client := .exited run.client.systemStatus }, [.sent none])
    | some sent =>
      if sent.length = run.echoStr.length then
        let next := run.loop 0
        ({ s with client := next.1, toServer := s.toServer ++ sent },
          [.sent (some sent), .printed (run.client.banner ++ next.2)])
      else ({ s with client := .exited EXIT_FAILURE, toServer := s.toServer ++ sent }, [.sent (some sent)])
  | .receive total =>
    match recv (EchoClient.BUF_SIZE - 1) s.toClient s.server.hungUp answer with
    | .blocked => (s, [])
    | .failed => ({ s with client := .exited run.client.systemStatus }, [.got none])
    | .got bytes rest =>
      if bytes = [] then ({ s with client := .exited EXIT_FAILURE }, [.got (some [])])
      else
        let next := run.loop (run.client.tally (total + bytes.length))
        ({ s with client := next.1, toClient := rest },
          [.got (some bytes), .printed (cString (bytes ++ [NUL]) ++ next.2)])
  | .done | .exited _ => (s, [])

def serverStep (answer : Option Nat) (s : System) : System × List Seen :=
  match s.server with
  | .receive =>
    match recv run.limit s.toServer s.client.terminated answer with
    | .blocked => (s, [])
    | .failed => ({ s with server := .ended (.systemMsg "recv() failed" run.status) }, [.server (.recv none)])
    | .got bytes rest =>
      ({ s with server := if bytes = [] then .ended .returned else .sendBack bytes, toServer := rest },
        [.server (.recv (some bytes))])
  | .sendBack buf =>
    match Greeting.send buf answer with
    | none => ({ s with server := .ended (.systemMsg "send() failed" run.status) }, [.server (.send buf (-1))])
    | some sent =>
      let next := if sent.length = buf.length then .receive
        else .ended (.userMsg "send()" "sent unexpected number of bytes" EchoServer.EXIT_FAILURE)
      ({ s with server := next, toClient := s.toClient ++ sent }, [.server (.send buf sent.length)])
  | .ended _ => (s, [])

def start : System := ⟨.sendEcho, .receive, [], []⟩

def step (turn : Turn) (s : System) : System × List Seen :=
  match turn.party with
  | .client => run.clientStep turn.answer s
  | .server => run.serverStep turn.answer s

def protocol : Machine Turn System Seen := ⟨run.step⟩

def sends (s : System) : Party → Bytes
  | .client => if s.client = .sendEcho then run.echoStr else []
  | .server =>
    match s.server with
    | .sendBack buf => buf
    | _ => []

def hasRoom (capacity : Party → Nat) (s : System) (party : Party) : Bool :=
  run.sends s party = [] || (s.ahead party).length + (run.sends s party).length ≤ capacity party

/-- The two programs with buffers of limited size, where a `send` waits until there is room. -/
def bounded (capacity : Party → Nat) : Machine Turn System Seen :=
  run.protocol.gate fun turn s => run.hasRoom capacity s turn.party

/-- No call fails, `recv` returns bytes where there are any, and `send` takes all of its. -/
def Reliable (_ : List Seen) (s : System) (turn : Turn) : Prop :=
  ∃ count ∈ turn.answer, 0 < count ∧ (run.sends s turn.party).length ≤ count

instance (past : List Seen) (s : System) (turn : Turn) : Decidable (run.Reliable past s turn) :=
  inferInstanceAs (Decidable (∃ count ∈ turn.answer, 0 < count ∧ (run.sends s turn.party).length ≤ count))

end Run

/-! ### Histories -/

def printed (past : List Seen) : Bytes :=
  past.flatMap fun
    | .printed bytes => bytes
    | _ => []

def serverCalls (past : List Seen) : List EchoServer.Call :=
  past.filterMap fun
    | .server call => some call
    | _ => none

def results (past : List Seen) : List (Option Bytes) :=
  past.filterMap fun
    | .got result => some result
    | _ => none

def received (past : List Seen) : Bytes :=
  (results past).flatMap fun result => result.getD []

def requested (past : List Seen) : Bytes :=
  past.flatMap fun
    | .sent (some bytes) => bytes
    | _ => []

@[simp] theorem printed_append (first second : List Seen) :
    printed (first ++ second) = printed first ++ printed second := List.flatMap_append

@[simp] theorem serverCalls_append (first second : List Seen) :
    serverCalls (first ++ second) = serverCalls first ++ serverCalls second := List.filterMap_append

@[simp] theorem results_append (first second : List Seen) :
    results (first ++ second) = results first ++ results second := List.filterMap_append

@[simp] theorem received_append (first second : List Seen) :
    received (first ++ second) = received first ++ received second := by
  rw [received, results_append, List.flatMap_append]
  rfl

@[simp] theorem requested_append (first second : List Seen) :
    requested (first ++ second) = requested first ++ requested second := List.flatMap_append

end SocketPrograms.EchoSystem
