import SocketPrograms.Lib.Machine
import SocketPrograms.Sigio.Handler

/-! The whole of `UDPEchoServer-SIGIO.c`: `main`, the handler that interrupts it, and the
kernel with the queue of the socket and the pending signal. Datagrams arrive at any moment,
also while the handler runs. `SIGIO` is blocked then, and raising it twice is raising it once. -/

namespace SocketPrograms.Sigio
open Lib Lib.CString

inductive Stage where
  /-- behind `bind`, with so many calls still to come before the one that sets `FASYNC` -/
  | setup (left : Nat)
  /-- in the loop that calls `UseIdleTime` -/
  | waiting
  /-- in `SIGIOHandler`, at the head of its loop -/
  | handling
  | exited
  deriving DecidableEq, Repr

def Stage.armed : Stage → Bool
  | .waiting | .handling => true
  | .setup _ | .exited => false

structure System (α : Type) where
  stage : Stage
  queue : List (Pending α)
  /-- `SIGIO` is pending -/
  signal : Bool
  deriving DecidableEq, Repr

inductive Event (α : Type) where
  | arrive (pending : Pending α)
  /-- `SIGIO` without a datagram, for instance because there is room to send again -/
  | wake
  /-- the next of the calls that set the socket up -/
  | configure (result : Int)
  /-- the next iteration of the handler's loop, or of the loop of `main` -/
  | advance (sendto : α → Bytes → Int)

inductive Seen (α : Type) where
  | arrived (pending : Pending α)
  /-- `FASYNC` is set -/
  | armed
  | sent (clntAddr : α) (bytes : Bytes)
  deriving DecidableEq, Repr

variable {α : Type}

/-- The body of the loop in `SIGIOHandler`, and where the test at its end leads. -/
def handlerTurn (sendto : α → Bytes → Int) : List (Pending α) → Stage × List (Pending α) × List (α × Bytes)
  | [] => (.waiting, [], [])
  | .error :: queue => (.exited, queue, [])
  | .datagram clntAddr payload :: queue =>
      let buf := payload.take bufSize
      let numBytesSent := sendto clntAddr buf
      if numBytesSent < 0 then (.exited, queue, [])
      else if numBytesSent ≠ buf.length then (.exited, queue, [(clntAddr, buf.take numBytesSent.toNat)])
      else (if 0 < buf.length then .handling else .waiting, queue, [(clntAddr, buf)])

def System.raise (s : System α) : System α := { s with signal := s.signal || s.stage.armed }

/-- `sigfillset`, `sigaction` and the two calls of `fcntl`: each of them fails or lets the next follow. -/
def System.configure (s : System α) (result : Int) : System α × List (Seen α) :=
  match s.stage with
  | .setup left =>
    if result < 0 then ({ s with stage := .exited }, [])
    else match left with
      | 0 => ({ s with stage := .waiting }, [.armed])
      | left + 1 => ({ s with stage := .setup left }, [])
  | _ => (s, [])

/-- A pending signal is delivered as soon as it is not blocked. -/
def System.advance (s : System α) (sendto : α → Bytes → Int) : System α × List (Seen α) :=
  match s.stage with
  | .waiting => if s.signal then ({ s with stage := .handling, signal := false }, []) else (s, [])
  | .handling =>
    let turn := handlerTurn sendto s.queue
    ({ s with stage := turn.1, queue := turn.2.1 }, turn.2.2.map fun echo => .sent echo.1 echo.2)
  | _ => (s, [])

def step (event : Event α) (s : System α) : System α × List (Seen α) :=
  if s.stage = .exited then (s, [])
  else match event with
    | .arrive pending => ({ s.raise with queue := s.queue ++ [pending] }, [.arrived pending])
    | .wake => (s.raise, [])
    | .configure result => s.configure result
    | .advance sendto => s.advance sendto

def system (α : Type) : Machine (Event α) (System α) (Seen α) := ⟨step⟩

def start : System α := ⟨.setup 3, [], false⟩

/-! ### Histories -/

def arrivals (past : List (Seen α)) : List (Pending α) :=
  past.filterMap fun
    | .arrived pending => some pending
    | _ => none

def echoes (past : List (Seen α)) : List (α × Bytes) :=
  past.filterMap fun
    | .sent clntAddr bytes => some (clntAddr, bytes)
    | _ => none

def Seen.since (kept : List (Pending α)) : Seen α → List (Pending α)
  | .arrived pending => kept ++ [pending]
  | .armed => []
  | .sent _ _ => kept

def sinceArmed (past : List (Seen α)) : List (Pending α) := past.foldl Seen.since []

def cut (queue : List (Pending α)) : List (α × Bytes) :=
  queue.filterMap fun
    | .datagram clntAddr payload => some (clntAddr, payload.take bufSize)
    | .error => none

@[simp] theorem arrivals_append (first second : List (Seen α)) :
    arrivals (first ++ second) = arrivals first ++ arrivals second := List.filterMap_append

@[simp] theorem echoes_append (first second : List (Seen α)) :
    echoes (first ++ second) = echoes first ++ echoes second := List.filterMap_append

@[simp] theorem cut_append (first second : List (Pending α)) : cut (first ++ second) = cut first ++ cut second :=
  List.filterMap_append

@[simp] theorem arrivals_arrived (pending : Pending α) : arrivals [.arrived pending] = [pending] := rfl

@[simp] theorem arrivals_armed : arrivals [(.armed : Seen α)] = [] := rfl

@[simp] theorem echoes_arrived (pending : Pending α) : echoes [.arrived pending] = [] := rfl

@[simp] theorem echoes_armed : echoes [(.armed : Seen α)] = [] := rfl

theorem sinceArmed_append (past later : List (Seen α)) :
    sinceArmed (past ++ later) = later.foldl Seen.since (sinceArmed past) := List.foldl_append

/-! ### Steps -/

inductive Turned : List (Pending α) → Stage × List (Pending α) × List (α × Bytes) → Prop where
  | dry : Turned [] (.waiting, [], [])
  | empty {clntAddr : α} {queue : List (Pending α)} :
      Turned (.datagram clntAddr [] :: queue) (.waiting, queue, [(clntAddr, [])])
  | echoed {clntAddr : α} {payload : Bytes} {queue : List (Pending α)} (solid : payload ≠ []) :
      Turned (.datagram clntAddr payload :: queue) (.handling, queue, [(clntAddr, payload.take bufSize)])

theorem handlerTurn_turned (sendto : α → Bytes → Int) (queue : List (Pending α))
    (lives : (handlerTurn sendto queue).1 ≠ .exited) : Turned queue (handlerTurn sendto queue) := by
  cases queue with
  | nil => exact .dry
  | cons pending queue =>
    cases pending with
    | error => exact absurd rfl lives
    | datagram clntAddr payload =>
      simp only [handlerTurn] at lives ⊢
      split_ifs at lives ⊢ with failed partly more
      · exact absurd rfl lives
      · exact absurd rfl lives
      · exact .echoed fun none => by simp [none] at more
      · have none : payload = [] := by
          cases payload with
          | nil => rfl
          | cons byte rest => simp [bufSize] at more
        subst none
        exact .empty

inductive Moves (s : System α) : System α → List (Seen α) → Prop where
  | still : Moves s s []
  | exits {queue : List (Pending α)} {seen : List (Seen α)} (shorter : queue <:+ s.queue)
      (quiet : arrivals seen = []) : Moves s ⟨.exited, queue, s.signal⟩ seen
  | arrived (pending : Pending α) (lives : s.stage ≠ .exited) :
      Moves s ⟨s.stage, s.queue ++ [pending], s.signal || s.stage.armed⟩ [.arrived pending]
  | woken (lives : s.stage ≠ .exited) : Moves s ⟨s.stage, s.queue, s.signal || s.stage.armed⟩ []
  | configured {left : Nat} (next : s.stage = .setup (left + 1)) : Moves s ⟨.setup left, s.queue, s.signal⟩ []
  | armed (last : s.stage = .setup 0) : Moves s ⟨.waiting, s.queue, s.signal⟩ [.armed]
  | interrupted (idle : s.stage = .waiting) (pending : s.signal = true) : Moves s ⟨.handling, s.queue, false⟩ []
  | turned {turn : Stage × List (Pending α) × List (α × Bytes)} (busy : s.stage = .handling)
      (does : Turned s.queue turn) :
      Moves s ⟨turn.1, turn.2.1, s.signal⟩ (turn.2.2.map fun echo => .sent echo.1 echo.2)

theorem handlerTurn_suffix (sendto : α → Bytes → Int) (queue : List (Pending α)) :
    (handlerTurn sendto queue).2.1 <:+ queue := by
  cases queue with
  | nil => exact List.suffix_rfl
  | cons pending queue =>
    have tail : queue <:+ pending :: queue := List.suffix_cons pending queue
    cases pending with
    | error => exact tail
    | datagram clntAddr payload =>
      simp only [handlerTurn]
      split_ifs <;> exact tail

theorem arrivals_sent (echoed : List (α × Bytes)) :
    arrivals (echoed.map fun echo => Seen.sent echo.1 echo.2) = [] := by
  apply List.filterMap_eq_nil_iff.mpr
  intro seen member
  obtain ⟨echo, -, rfl⟩ := List.mem_map.mp member
  rfl

theorem echoes_sent (echoed : List (α × Bytes)) :
    echoes (echoed.map fun echo => Seen.sent echo.1 echo.2) = echoed := by
  rw [echoes, List.filterMap_map]
  exact List.filterMap_some

theorem configure_moves {s : System α} (lives : s.stage ≠ .exited) (result : Int) :
    Moves s (s.configure result).1 (s.configure result).2 := by
  obtain ⟨stage, queue, signal⟩ := s
  cases stage with
  | setup left =>
    by_cases failed : result < 0
    · simpa [System.configure, failed] using Moves.exits (s := ⟨.setup left, queue, signal⟩) List.suffix_rfl rfl
    · cases left with
      | zero => simpa [System.configure, failed] using Moves.armed (s := ⟨.setup 0, queue, signal⟩) rfl
      | succ left =>
        simpa [System.configure, failed] using Moves.configured (s := ⟨.setup (left + 1), queue, signal⟩) rfl
  | waiting | handling => exact .still
  | exited => exact absurd rfl lives

theorem advance_moves (s : System α) (sendto : α → Bytes → Int) :
    Moves s (s.advance sendto).1 (s.advance sendto).2 := by
  obtain ⟨stage, queue, signal⟩ := s
  cases stage with
  | setup left => exact .still
  | exited => exact .still
  | waiting =>
    cases signal with
    | false => exact .still
    | true => exact .interrupted rfl rfl
  | handling =>
    by_cases lives : (handlerTurn sendto queue).1 = .exited
    · have moves := Moves.exits (s := ⟨.handling, queue, signal⟩) (handlerTurn_suffix sendto queue)
        (arrivals_sent (handlerTurn sendto queue).2.2)
      rw [← lives] at moves
      exact moves
    · exact .turned rfl (handlerTurn_turned sendto queue lives)

theorem step_moves (event : Event α) (s : System α) : Moves s (step event s).1 (step event s).2 := by
  unfold step
  split
  next => exact .still
  next lives =>
    cases event with
    | arrive pending => exact .arrived pending lives
    | wake => exact .woken lives
    | configure result => exact configure_moves lives result
    | advance sendto => exact advance_moves s sendto

end SocketPrograms.Sigio
