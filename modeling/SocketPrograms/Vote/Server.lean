import SocketPrograms.Lib.Machine
import SocketPrograms.Vote.DelimFramer
import SocketPrograms.Vote.EncodingText

/-! The vote server's `main` as a machine. One step is one call of `AcceptConnection` or one
turn of the loop over the messages of a connection. `accept` and `fdopen` succeed. What the
stream makes of output behind input is a parameter. -/

namespace SocketPrograms.Vote
open Lib CString

inductive Stop where
  /-- `ExitWithUserMsg` -/
  | exited
  | readBehindBuffer
  | storedBehindBuffer
  | badIndex
deriving DecidableEq, Repr

/-- A stream as the loops use it. -/
structure Stdio (σ : Type) where
  /-- the bytes that are still to be read -/
  bytes : σ → Bytes
  /-- the stream when only so much of these is left -/
  behind : σ → Bytes → σ
  /-- the stream behind some output, and what is sent of it -/
  output : σ → Bytes → σ × Bytes

/-- Reading and writing do not get in each other's way. -/
def Stdio.ideal : Stdio Bytes := ⟨id, fun _ rest => rest, Prod.mk⟩

inductive Phase (σ : Type := Bytes) where
  | accepting
  | serving (stream : σ) (inBuf : Bytes)
  | stopped (why : Stop)
deriving DecidableEq, Repr

structure State (σ : Type := Bytes) where
  counts : List UInt64
  phase : Phase σ
deriving DecidableEq, Repr

inductive Event where
  /-- `inBuf[0..mSize)` goes to `Decode`; `left` bytes of the stream are behind the message. -/
  | handed (payload : Bytes) (left : Nat)
  /-- `Decode` gave `msg`; `reply` is what `Encode` is called with. -/
  | processed (msg : VoteInfo) (reply : Option VoteInfo)
  | sent (bytes : Bytes)
  | parseError
  | putError
  | clientFinished
deriving DecidableEq, Repr

structure Arrival (σ : Type := Bytes) where
  stream : σ
  inBuf : WireBuf
  outBuf : WireBuf

def fetch (counts : List UInt64) (candidate : Int) : Option UInt64 :=
  if 0 ≤ candidate then counts[candidate.toNat]? else none

def bump (counts : List UInt64) (candidate : Int) : Option (List UInt64) :=
  (fetch counts candidate).map fun n => counts.set candidate.toNat (n + 1)

def InRange (candidate : Int32) : Prop := 0 ≤ candidate.toInt ∧ candidate.toInt ≤ MAX_CANDIDATE

instance (candidate : Int32) : Decidable (InRange candidate) := inferInstanceAs (Decidable (_ ∧ _))

def tally (counts : List UInt64) (v : VoteInfo) : Option (List UInt64 × VoteInfo) :=
  let v := { v with isResponse := true }
  if InRange v.candidate then do
    let counts ← if v.isInquiry then some counts else bump counts v.candidate.toInt
    let count ← fetch counts v.candidate.toInt
    return (counts, { v with count := count })
  else return (counts, v)

section loop
variable {σ : Type} (io : Stdio σ)

def respondOn (counts : List UInt64) (stream : σ) (inBuf : Bytes) (v : VoteInfo) (outBuf : Bytes) :
    State σ × List Event :=
  if v.isResponse then (⟨counts, .serving stream inBuf⟩, [.processed v none])
  else
    match tally counts v with
    | none => (⟨counts, .stopped .badIndex⟩, [])
    | some (counts, w) =>
      match encode w outBuf MAX_WIRE_SIZE with
      | none => (⟨counts, .stopped .storedBehindBuffer⟩, [.processed v (some w)])
      | some (mSize, outBuf) =>
        let (rv, bytes) := putMsg outBuf mSize
        if rv < 0 then (⟨counts, .accepting⟩, [.processed v (some w), .putError, .clientFinished])
        else
          let (stream, sent) := io.output stream bytes
          (⟨counts, .serving stream inBuf⟩, [.processed v (some w), .sent sent])

def serveOn (counts : List UInt64) (stream : σ) (inBuf outBuf : Bytes) : State σ × List Event :=
  match getNextMsg (io.bytes stream) inBuf MAX_WIRE_SIZE with
  | .exited => (⟨counts, .stopped .exited⟩, [])
  | .returned mSize inBuf rest =>
    if 0 < mSize then
      let handed := Event.handed (inBuf.take mSize.toNat) rest.length
      match decode inBuf VoteInfo.zero with
      | none => (⟨counts, .stopped .readBehindBuffer⟩, [handed])
      | some (false, _, _) => (⟨counts, .accepting⟩, [handed, .parseError, .clientFinished])
      | some (true, v, inBuf) =>
        let (s, events) := respondOn io counts (io.behind stream rest) inBuf v outBuf
        (s, handed :: events)
    else (⟨counts, .accepting⟩, [.clientFinished])

def stepOn (arrival : Arrival σ) (s : State σ) : State σ × List Event :=
  match s.phase with
  | .accepting => (⟨s.counts, .serving arrival.stream arrival.inBuf.1⟩, [])
  | .serving stream inBuf => serveOn io s.counts stream inBuf arrival.outBuf.1
  | .stopped _ => (s, [])

def serverOn : Machine (Arrival σ) (State σ) Event := ⟨stepOn io⟩

def start : State σ := ⟨List.replicate (MAX_CANDIDATE + 1).toNat 0, .accepting⟩

def State.serving (s : State σ) : Bool :=
  match s.phase with
  | .serving _ _ => true
  | _ => false

end loop

structure Connection (σ : Type := Bytes) where
  stream : σ
  inBuf : WireBuf
  outBuf : Nat → WireBuf

section connection
variable {σ : Type} (io : Stdio σ)

def Connection.arrival (conn : Connection σ) (k : Nat) : Arrival σ := ⟨conn.stream, conn.inBuf, conn.outBuf k⟩

def Connection.opened (conn : Connection σ) (counts : List UInt64) : State σ :=
  ⟨counts, .serving conn.stream conn.inBuf.1⟩

/-- A connection from `AcceptConnection` to `fclose`. The bound on the number of turns is
never reached (`connection_ends`). -/
def connectionOn (conn : Connection σ) (s : State σ) : State σ × List Event :=
  match s.phase with
  | .accepting =>
    (serverOn io).runWhile State.serving conn.arrival ((io.bytes conn.stream).length + 1) 0 (conn.opened s.counts)
  | _ => (s, [])

def connectionsOn : Machine (Connection σ) (State σ) Event := ⟨connectionOn io⟩

theorem connectionOn_stretch (conn : Connection σ) (s : State σ) :
    ∃ arrivals, (connectionsOn io).step conn s = (serverOn io).run arrivals s := by
  obtain ⟨counts, phase⟩ := s
  cases phase with
  | accepting =>
    obtain ⟨turns, -, same⟩ := (serverOn io).runWhile_eq_run State.serving conn.arrival
      ((io.bytes conn.stream).length + 1) 0 (conn.opened counts)
    refine ⟨conn.arrival 0 :: (List.range' 0 turns).map conn.arrival, ?_⟩
    rw [Machine.run_cons]
    exact same
  | serving stream inBuf => exact ⟨[], rfl⟩
  | stopped why => exact ⟨[], rfl⟩

end connection

/-! ### Streams on which nothing is lost -/

def respond (counts : List UInt64) (stream inBuf : Bytes) (v : VoteInfo) (outBuf : Bytes) : State × List Event :=
  respondOn .ideal counts stream inBuf v outBuf

def serve (counts : List UInt64) (stream inBuf outBuf : Bytes) : State × List Event :=
  serveOn .ideal counts stream inBuf outBuf

def server : Machine Arrival State Event := serverOn .ideal

def connections : Machine Connection State Event := connectionsOn .ideal

theorem connection_stretch (conn : Connection) (s : State) :
    ∃ arrivals, connections.step conn s = server.run arrivals s := connectionOn_stretch .ideal conn s

theorem respond_eq (counts : List UInt64) (stream inBuf : Bytes) (v : VoteInfo) (outBuf : Bytes) :
    respond counts stream inBuf v outBuf =
      if v.isResponse then (⟨counts, .serving stream inBuf⟩, [.processed v none])
      else
        match tally counts v with
        | none => (⟨counts, .stopped .badIndex⟩, [])
        | some (counts, w) =>
          match encode w outBuf MAX_WIRE_SIZE with
          | none => (⟨counts, .stopped .storedBehindBuffer⟩, [.processed v (some w)])
          | some (mSize, outBuf) =>
            if (putMsg outBuf mSize).1 < 0 then
              (⟨counts, .accepting⟩, [.processed v (some w), .putError, .clientFinished])
            else (⟨counts, .serving stream inBuf⟩, [.processed v (some w), .sent (putMsg outBuf mSize).2]) := rfl

theorem serve_eq (counts : List UInt64) (stream inBuf outBuf : Bytes) :
    serve counts stream inBuf outBuf =
      match getNextMsg stream inBuf MAX_WIRE_SIZE with
      | .exited => (⟨counts, .stopped .exited⟩, [])
      | .returned mSize inBuf rest =>
        if 0 < mSize then
          match decode inBuf VoteInfo.zero with
          | none => (⟨counts, .stopped .readBehindBuffer⟩, [.handed (inBuf.take mSize.toNat) rest.length])
          | some (false, _, _) => (⟨counts, .accepting⟩,
              [.handed (inBuf.take mSize.toNat) rest.length, .parseError, .clientFinished])
          | some (true, v, left) => ((respond counts rest left v outBuf).1,
              .handed (inBuf.take mSize.toNat) rest.length :: (respond counts rest left v outBuf).2)
        else (⟨counts, .accepting⟩, [.clientFinished]) := rfl

/-! ### Histories -/

def Event.votes (c : Int) : Event → Bool
  | .processed msg _ => !msg.isResponse && !msg.isInquiry && msg.candidate.toInt = c
  | _ => false

def votesFor (c : Int) (past : List Event) : Nat := past.countP (Event.votes c)

/-- The counter of every candidate is the number of votes for it, modulo `2 ^ 64`. -/
def Exact (past : List Event) (counts : List UInt64) : Prop :=
  counts.length = (MAX_CANDIDATE + 1).toNat ∧
    ∀ c : Nat, c ≤ MAX_CANDIDATE → counts[c]? = some (UInt64.ofNat (votesFor c past))

end SocketPrograms.Vote
