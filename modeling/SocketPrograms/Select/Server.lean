import SocketPrograms.Lib.Machine
import Mathlib.Data.Finset.Basic
import Mathlib.Data.Finset.Dedup
import Mathlib.Data.Finset.Insert

/-! The loop of `TCPEchoServer-Select.c` with `AcceptConnection` and `HandleClient` of ch06's
`Utils.c`. One step is one turn of the loop. What the operating system answers is the input of
the step, and the calls that are made are its output. -/

namespace SocketPrograms.Select
open Lib

def STDIN_FILENO : Int := 0
def FD_SETSIZE : Int := 1024

/-- A call with its arguments and its result. `select` is given with the set that it leaves; a
received `none` is the result -1, a received empty list the result 0. -/
inductive Call where
  | fdSet (fd : Int)
  | select (nfds result : Int) (sockSet : List Int)
  | fdIsSet (fd : Int)
  | getchar
  | accept (listener result : Int)
  | recv (fd : Int) (got : Option (List UInt8))
  | send (fd : Int) (data : List UInt8) (result : Int)
  | close (fd : Int)
deriving DecidableEq, Repr

/-- What the client of one connection brings: results of `recv`, each with the result of the
`send` behind it. Behind the last of them is the end of the stream. -/
abbrev Client := List (Option (List UInt8) × Int)

structure Answers where
  /-- the descriptors that are ready, or a failure of `select` -/
  select : Option (List Int)
  /-- by the index of the listening socket -/
  accept : Nat → Int
  client : Nat → Client
  /-- `FD_ISSET` of the listening socket, where an `fd_set` has no room for it -/
  stray : Nat → Bool

/-- Where the program is between two turns. The top of the loop is reached with `bRunning`
true or false. -/
inductive State where
  | running
  | stopping
  | returned
  | exited
deriving DecidableEq, Repr

def State.atTop (s : State) : Prop := s = .running ∨ s = .stopping

def handleClient (sock : Int) : Client → Bool × List Call
  | [] => (true, [.recv sock (some [])])
  | (none, _) :: _ => (false, [.recv sock none])
  | (some buf, sent) :: rest =>
      if buf = [] then (true, [.recv sock (some buf)])
      else if sent < 0 then (false, [.recv sock (some buf), .send sock buf sent])
      else if sent ≠ buf.length then (false, [.recv sock (some buf), .send sock buf sent])
      else
        let later := handleClient sock rest
        (later.1, .recv sock (some buf) :: .send sock buf sent :: later.2)

def serveClient (listeningSock sock : Int) (client : Client) : Bool × List Call :=
  if sock < 0 then (false, [.accept listeningSock sock])
  else
    let handled := handleClient sock client
    (handled.1, .accept listeningSock sock :: handled.2)

def HasRoom (fd : Int) : Prop := 0 ≤ fd ∧ fd < FD_SETSIZE

instance : DecidablePred HasRoom := fun _ => inferInstanceAs (Decidable (_ ∧ _))

/-- `FD_SET` of one descriptor after another. The C library leaves open what it does without a bit;
here nothing, and `FD_ISSET` may give either answer. -/
def fdSets (sockSet : List Int) : List Int → List Int × List Call
  | [] => (sockSet, [])
  | fd :: rest =>
      let later := fdSets (if HasRoom fd then sockSet.insert fd else sockSet) rest
      (later.1, .fdSet fd :: later.2)

def fdIsSet (ans : Answers) (sockSet : List Int) (i : Nat) (sock : Int) : Bool :=
  if HasRoom sock then sock ∈ sockSet else ans.stray i

def serveSockets (ans : Answers) (sockSet : List Int) : Nat → List Int → Bool × List Call
  | _, [] => (true, [])
  | i, sock :: rest =>
      if fdIsSet ans sockSet i sock then
        let served := serveClient sock (ans.accept i) (ans.client i)
        if served.1 then
          let later := serveSockets ans sockSet (i + 1) rest
          (later.1, .fdIsSet sock :: served.2 ++ later.2)
        else (false, .fdIsSet sock :: served.2)
      else
        let later := serveSockets ans sockSet (i + 1) rest
        (later.1, .fdIsSet sock :: later.2)

/-- `select`: a failure leaves the set as it is. -/
def select (ans : Answers) (sockSet : List Int) : Int × List Int :=
  match ans.select with
  | none => (-1, sockSet)
  | some ready =>
    let marked := sockSet.filter (· ∈ ready)
    (marked.length, marked)

def maxDesc (sockets : List Int) : Int :=
  sockets.foldl (fun maxDesc sock => if maxDesc < sock then sock else maxDesc) (-1)

def turn (sockets : List Int) (ans : Answers) : State × List Call :=
  let (sockSet, sets) := fdSets [] (STDIN_FILENO :: sockets)
  let (result, sockSet) := select ans sockSet
  let calls := sets ++ [.select (maxDesc sockets + 1) result sockSet]
  if result = 0 then (.running, calls)
  else
    let stop := STDIN_FILENO ∈ sockSet
    let served := serveSockets ans sockSet 0 sockets
    let calls := calls ++ .fdIsSet STDIN_FILENO :: (if stop then [.getchar] else []) ++ served.2
    if served.1 then (if stop then .stopping else .running, calls) else (.exited, calls)

def step (sockets : List Int) (ans : Answers) (s : State) : State × List Call :=
  match s with
  | .running => turn sockets ans
  | .stopping => (.returned, sockets.map .close)
  | .returned => (.returned, [])
  | .exited => (.exited, [])

def server (sockets : List Int) : Machine Answers State Call := ⟨step sockets⟩

/-! ### Histories -/

def listening (sockets : List Int) : Finset Int := (sockets.filter (0 ≤ ·)).toFinset

def Call.track (sockets : Finset Int) : Call → Finset Int
  | .accept _ result => if 0 ≤ result then insert result sockets else sockets
  | .close fd => sockets.erase fd
  | _ => sockets

def openSockets (sockets : List Int) (past : List Call) : Finset Int := past.foldl Call.track (listening sockets)

/-- `accept` fails or returns a descriptor that is not open. -/
def FreshAccept (sockets : List Int) (past : List Call) : Call → Prop
  | .accept _ result => result < 0 ∨ result ∉ openSockets sockets past
  | _ => True

end SocketPrograms.Select
