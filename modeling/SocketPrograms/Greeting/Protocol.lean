import SocketPrograms.Lib.Fair
import SocketPrograms.Lib.Words

/-! The client and the server of IPv6_TCP_V2 over one connection, from `connect` and `accept`
on. A step is the next system call of one of the two programs with what follows it. The
output is what the client prints behind the address lines. -/

namespace SocketPrograms.Greeting
open Lib CString

def BUF_SIZE : Nat := 100

def GREETING_MSG : Bytes := ascii ['h', 'e', 'l', 'l', 'o']

def LF : UInt8 := 10

abbrev Buffer := { buf : Bytes // buf.length = BUF_SIZE }

structure Run where
  echoStr : Bytes
  clean : NUL ∉ echoStr
  greetingBuf : Buffer
  echoBuf : Buffer

inductive Client where
  | receiveGreetings (buf : Bytes) (totalBytesRcvd : Nat)
  | sendEcho
  | receiveEcho (buf : Bytes) (totalBytesRcvd : Nat)
  | done
  | invalidGreeting
  | failed
deriving DecidableEq, Repr

inductive Server where
  | sendGreetings
  | receive
  | sendBack (buf : Bytes)
  | closed
  | failed
deriving DecidableEq, Repr

structure System where
  client : Client
  server : Server
  toClient : Bytes
  toServer : Bytes
deriving DecidableEq, Repr

inductive Party where
  | client
  | server
deriving DecidableEq, Repr

/-- Whose call is next, and for how many bytes the operating system lets it go; `none` is a
failure. -/
structure Turn where
  party : Party
  answer : Option Nat
deriving DecidableEq, Repr

def Client.terminated : Client → Bool
  | .done | .invalidGreeting | .failed => true
  | _ => false

def Server.hungUp : Server → Bool
  | .closed | .failed => true
  | _ => false

inductive Received where
  | blocked
  | failed
  | got (bytes rest : Bytes)

/-- `recv` of `limit` bytes at most. Behind the last byte of a peer that hung up is the end
of the stream. -/
def recv (limit : Nat) (stream : Bytes) (hungUp : Bool) : Option Nat → Received
  | none => .failed
  | some count =>
      if stream = [] then if hungUp then .got [] [] else .blocked
      else .got (stream.take (min count limit)) (stream.drop (min count limit))

def send (data : Bytes) (answer : Option Nat) : Option Bytes := answer.map data.take

/-- The buffer after `recv` to `buf + pos` and the NUL behind what it stored. -/
def storeString (buf : Bytes) (pos : Nat) (bytes : Bytes) : Bytes :=
  (buf.take pos ++ bytes ++ buf.drop (pos + bytes.length)).set (pos + bytes.length) NUL

/-- `strncmp` is 0 -/
def sameUpTo (n : Nat) (s t : Bytes) : Bool := (cString s).take n = (cString t).take n

def puts (s : Bytes) : Bytes := cString s ++ [LF]

def checkGreeting (buf : Bytes) (totalBytesRcvd : Nat) : Client × Bytes :=
  if sameUpTo totalBytesRcvd GREETING_MSG buf then (.sendEcho, puts buf) else (.invalidGreeting, [])

namespace Run
variable (run : Run)

def echoLoop (buf : Bytes) (totalBytesRcvd : Nat) : Client × Bytes :=
  if totalBytesRcvd < run.echoStr.length then (.receiveEcho buf totalBytesRcvd, []) else (.done, [LF])

def clientStep (answer : Option Nat) (s : System) : System × Bytes :=
  match s.client with
  | .receiveGreetings buf total =>
    match recv (BUF_SIZE - total - 1) s.toClient s.server.hungUp answer with
    | .blocked => (s, [])
    | .failed => ({ s with client := .failed }, [])
    | .got bytes rest =>
      let buf := storeString buf total bytes
      let total := total + bytes.length
      let next := if total < GREETING_MSG.length then (.receiveGreetings buf total, []) else checkGreeting buf total
      ({ s with client := next.1, toClient := rest }, next.2)
  | .sendEcho =>
    match send run.echoStr answer with
    | none => ({ s with client := .failed }, [])
    | some sent =>
      let next := if sent.length = run.echoStr.length then run.echoLoop run.echoBuf.1 0 else (.failed, [])
      ({ s with client := next.1, toServer := s.toServer ++ sent }, next.2)
  | .receiveEcho buf total =>
    match recv (BUF_SIZE - 1) s.toClient s.server.hungUp answer with
    | .blocked => (s, [])
    | .failed => ({ s with client := .failed }, [])
    | .got bytes rest =>
      let buf := storeString buf 0 bytes
      let next := run.echoLoop buf (total + bytes.length)
      ({ s with client := next.1, toClient := rest }, cString buf ++ next.2)
  | .done | .invalidGreeting | .failed => (s, [])

end Run

def System.ahead (s : System) : Party → Bytes
  | .client => s.toServer
  | .server => s.toClient

def serverStep (answer : Option Nat) (s : System) : System :=
  match s.server with
  | .sendGreetings =>
    match send GREETING_MSG answer with
    | none => { s with server := .failed }
    | some sent =>
      let next := if sent.length < GREETING_MSG.length then .failed else .receive
      { s with server := next, toClient := s.toClient ++ sent }
  | .receive =>
    match recv BUF_SIZE s.toServer s.client.terminated answer with
    | .blocked => s
    | .failed => { s with server := .failed }
    | .got bytes rest => { s with server := if bytes = [] then .closed else .sendBack bytes, toServer := rest }
  | .sendBack buf =>
    match send buf answer with
    | none => { s with server := .failed }
    | some sent =>
      let next := if sent.length = buf.length then .receive else .failed
      { s with server := next, toClient := s.toClient ++ sent }
  | .closed | .failed => s

namespace Run
variable (run : Run)

def start : System := ⟨.receiveGreetings run.greetingBuf.1 0, .sendGreetings, [], []⟩

def step (turn : Turn) (s : System) : System × Bytes :=
  match turn.party with
  | .client => run.clientStep turn.answer s
  | .server => (serverStep turn.answer s, [])

def protocol : Machine Turn System UInt8 := ⟨run.step⟩

def sends (s : System) : Party → Bytes
  | .client => if s.client = .sendEcho then run.echoStr else []
  | .server =>
    match s.server with
    | .sendGreetings => GREETING_MSG
    | .sendBack buf => buf
    | _ => []

def hasRoom (capacity : Party → Nat) (s : System) (party : Party) : Bool :=
  run.sends s party = [] || (s.ahead party).length + (run.sends s party).length ≤ capacity party

/-- The two programs with buffers of limited size, where a `send` waits until there is room. -/
def bounded (capacity : Party → Nat) : Machine Turn System UInt8 :=
  run.protocol.gate fun turn s => run.hasRoom capacity s turn.party

/-- No call fails, `recv` returns bytes where there are any, and `send` takes all of its. -/
def Reliable (s : System) (turn : Turn) : Prop :=
  ∃ count ∈ turn.answer, 0 < count ∧ (run.sends s turn.party).length ≤ count

instance (s : System) (turn : Turn) : Decidable (run.Reliable s turn) :=
  inferInstanceAs (Decidable (∃ count ∈ turn.answer, 0 < count ∧ (run.sends s turn.party).length ≤ count))

end Run
end SocketPrograms.Greeting
