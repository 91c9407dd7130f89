import SocketPrograms.Lib.Machine
import SocketPrograms.Poll.Table
import Mathlib.Data.Finset.Basic

/-! The event loops of `poll_server.c` and `poll_server2.c` as machines. One step is one
call of `poll`, one iteration of the loop over the array, or the test that ends that
loop. What the operating system answers is the input of the step, and the system calls
made are its output. -/

namespace SocketPrograms.Poll
open Lib Table

/-- A system call with its arguments and its result. A received `none` is the result -1,
a received empty list the result 0. -/
inductive Call where
  | poll (ready : List Int)
  | accept (listener result : Int)
  | recv (fd : Int) (got : Option (List UInt8))
  | send (fd : Int) (data : List UInt8) (result : Int)
  | close (fd : Int)
  deriving DecidableEq, Repr

/-- What the operating system would answer in one step to each call it may make. -/
structure Answers where
  /-- `revents` of the first `fd_count` entries, or a failure of `poll` -/
  poll : Option (Nat → BitVec 16)
  accept : Int
  recv : Option (List UInt8)
  /-- by the index of the loop over the recipients -/
  send : Nat → Int
  /-- contents of cells that `realloc` adds -/
  junk : Nat → PollFd

def Answers.nbytes (ans : Answers) : Int :=
  match ans.recv with
  | none => -1
  | some data => data.length

def Answers.data (ans : Answers) : List UInt8 := ans.recv.getD []

def Answers.hangsUp (ans : Answers) : Bool := ans.nbytes ≤ 0

inductive Phase where
  | poll
  | scan (i : Nat)
  | exited
  /-- an access outside the allocation -/
  | crashed
  deriving DecidableEq, Repr

structure State where
  table : Table
  phase : Phase
  deriving DecidableEq, Repr

def hangUp (ans : Answers) (i : Nat) (fd : Int) (t : Table) : State × List Call :=
  match delFromPfds t i with
  | none => (⟨t, .crashed⟩, [.recv fd ans.recv, .close fd])
  | some t' => (⟨t', .scan (i + 1)⟩, [.recv fd ans.recv, .close fd])

def welcome (listener : Int) (ans : Answers) (i : Nat) (t : Table) : State × List Call :=
  match addToPfds t ans.accept ans.junk with
  | none => (⟨t, .crashed⟩, [.accept listener ans.accept])
  | some t' => (⟨t', .scan (i + 1)⟩, [.accept listener ans.accept])

namespace PollServer

/-- The loop over `j`. The descriptor it sends to is read at `i`. -/
def broadcast (listener : Int) (ans : Answers) (i : Nat) (t : Table) : List Call :=
  (List.range t.fdCount).flatMap fun j =>
    match t.pfds[i]? with
    | none => []
    | some dest => if dest.fd ≠ listener then [.send dest.fd ans.data (ans.send j)] else []

def visit (listener : Int) (ans : Answers) (i : Nat) (t : Table) : State × List Call :=
  match t.pfds[i]? with
  | none => (⟨t, .crashed⟩, [])
  | some entry =>
    if entry.readable then
      if entry.fd = listener then
        if ans.accept = -1 then (⟨t, .scan (i + 1)⟩, [.accept listener ans.accept])
        else welcome listener ans i t
      else if ans.nbytes ≤ 0 then hangUp ans i entry.fd t
      else (⟨t, .scan (i + 1)⟩, .recv entry.fd ans.recv :: broadcast listener ans i t)
    else (⟨t, .scan (i + 1)⟩, [])

end PollServer

namespace PollServer2

/-- `accept_conn`: a failing `accept` ends the process. -/
def acceptConn (listener : Int) (ans : Answers) (i : Nat) (t : Table) : State × List Call :=
  if ans.accept < 0 then (⟨t, .exited⟩, [.accept listener ans.accept])
  else welcome listener ans i t

def handler (ans : Answers) (i : Nat) (sender : Int) (t : Table) : State × List Call :=
  if ans.nbytes ≤ 0 then hangUp ans i sender t
  else (⟨t, .scan (i + 1)⟩, [.recv sender ans.recv, .send sender ans.data (ans.send 0)])

def visit (listener : Int) (ans : Answers) (i : Nat) (t : Table) : State × List Call :=
  match t.pfds[i]? with
  | none => (⟨t, .crashed⟩, [])
  | some entry =>
    if entry.readable then
      if entry.fd = listener then acceptConn listener ans i t
      else handler ans i entry.fd t
    else (⟨t, .scan (i + 1)⟩, [])

end PollServer2

inductive Program where
  | pollServer
  | pollServer2
  deriving DecidableEq, Repr

def Program.visit : Program → Int → Answers → Nat → Table → State × List Call
  | .pollServer => PollServer.visit
  | .pollServer2 => PollServer2.visit

/-- `poll` writes `revents` of the first `fd_count` entries and of no other. -/
def report (t : Table) (revents : Nat → BitVec 16) : Table :=
  { t with pfds := t.pfds.mapIdx fun k entry =>
      if k < t.fdCount then { entry with revents := revents k } else entry }

def ready (t : Table) : List Int := (t.live.filter PollFd.readable).map PollFd.fd

def step (visit : Answers → Nat → Table → State × List Call) (ans : Answers) (s : State) :
    State × List Call :=
  match s.phase with
  | .poll =>
    match ans.poll with
    | none => (⟨s.table, .exited⟩, [])
    | some revents =>
      let t := report s.table revents
      (⟨t, .scan 0⟩, [.poll (ready t)])
  | .scan i => if i < s.table.fdCount then visit ans i s.table else (⟨s.table, .poll⟩, [])
  | .exited => (s, [])
  | .crashed => (s, [])

def server (p : Program) (listener : Int) : Machine Answers State Call := ⟨step (p.visit listener)⟩

def State.scanning (s : State) : Bool :=
  match s.phase with
  | .scan _ => true
  | _ => false

/-- One execution of the loop over `pfds`; iteration `k` uses the answers `k`. The bound on
the number of iterations is never reached (`scan_ends`). -/
def scanLoop (p : Program) (listener : Int) (answers : Nat → Answers) (t : Table) : State × List Call :=
  (server p listener).runWhile State.scanning answers (t.fdCount + 3) 0 ⟨t, .scan 0⟩

def pass (p : Program) (listener : Int) (answers : Nat → Answers) (s : State) : State × List Call :=
  match s.phase with
  | .poll =>
    let polled := (server p listener).step (answers 0) s
    let swept := (server p listener).runWhile State.scanning answers (s.table.fdCount + 3) 0 polled.1
    (swept.1, polled.2 ++ swept.2)
  | _ => (s, [])

def turns (p : Program) (listener : Int) : Machine (Nat → Answers) State Call := ⟨pass p listener⟩

theorem pass_stretch (p : Program) (listener : Int) (answers : Nat → Answers) (s : State) :
    ∃ inputs, (turns p listener).step answers s = (server p listener).run inputs s := by
  obtain ⟨t, phase⟩ := s
  cases phase with
  | poll =>
    obtain ⟨count, -, same⟩ := (server p listener).runWhile_eq_run State.scanning answers (t.fdCount + 3) 0
      ((server p listener).step (answers 0) ⟨t, .poll⟩).1
    refine ⟨answers 0 :: (List.range' 0 count).map answers, ?_⟩
    rw [Machine.run_cons, ← same]
    rfl
  | scan i => exact ⟨[], rfl⟩
  | exited => exact ⟨[], rfl⟩
  | crashed => exact ⟨[], rfl⟩

/-- What the turns do the server does. -/
theorem turns_run (p : Program) (listener : Int) (passes : List (Nat → Answers)) (s : State) :
    ∃ inputs, (turns p listener).run passes s = (server p listener).run inputs s :=
  (server p listener).run_of_stretches (pass_stretch p listener) passes s

def start (listener : Int) (junk : Nat → PollFd) : State :=
  let pfds := malloc 5 junk
  { table := {
      pfds := pfds.set 0 { pfds.getD 0 ⟨0, 0, 0⟩ with fd := listener, events := POLLIN }
      fdCount := 1
      fdSize := 5 }
    phase := .poll }

/-! ### Histories -/

def Call.track (clients : Finset Int) : Call → Finset Int
  | .accept _ result => if 0 ≤ result then insert result clients else clients
  | .close fd => clients.erase fd
  | _ => clients

def openClients (past : List Call) : Finset Int := past.foldl Call.track ∅

def Call.announce (reported : List Int) : Call → List Int
  | .poll ready => ready
  | _ => reported

def lastReport (past : List Call) : List Int := past.foldl Call.announce []

/-- `accept` fails or returns a descriptor that is not currently open. -/
def AcceptFresh (listener : Int) (past : List Call) (_ : State) (ans : Answers) : Prop :=
  ans.accept = -1 ∨ 0 ≤ ans.accept ∧ ans.accept ≠ listener ∧ ans.accept ∉ openClients past

end SocketPrograms.Poll
