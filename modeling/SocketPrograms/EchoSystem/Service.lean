import Mathlib.Data.List.Induction
import SocketPrograms.EchoSystem.Correct

/-! An iterative echo server and all of its clients. The server takes one connection after
another from `accept` and serves it until its client is done; meanwhile the other clients go
on with their own calls. A step is the next system call of the server or of one of the clients. -/

namespace SocketPrograms.EchoSystem
open Lib CString
open EchoClient (LF)
open EchoServer (breakLoop)

structure Service (κ : Type*) where
  run : κ → Run
  limit : Nat
  status : Nat
  asks : ∀ k, (run k).limit = limit
  fails : ∀ k, (run k).status = status

def Server.failure : Server → Option EchoServer.Ended
  | .receive | .sendBack _ => none
  | .ended how => if how = .returned then none else some how

namespace Service

inductive Main (κ : Type*) where
  | accept
  | serve (client : κ)
  | exited (how : EchoServer.Ended)
  deriving DecidableEq, Repr

structure State (κ : Type*) where
  conn : κ → System
  /-- the connections that `accept` has not returned -/
  pending : κ → Bool
  main : Main κ

inductive Party (κ : Type*) where
  | client (k : κ)
  | server
  deriving DecidableEq, Repr

structure Turn (κ : Type*) where
  party : Party κ
  /-- for `recv` and `send` -/
  answer : Option Nat
  /-- for `accept`, of which `none` is a failure -/
  next : Option κ
  deriving DecidableEq, Repr

inductive Event (κ : Type*) where
  | accept (result : Option κ)
  | close (client : κ)
  | on (client : κ) (seen : Seen)
  deriving DecidableEq, Repr

variable {κ : Type*}

/-- The process is gone: nobody receives on the connections that it has not accepted. -/
def abandon (how : EchoServer.Ended) (s : State κ) : State κ where
  conn k := if s.pending k then { s.conn k with server := .ended .waiting } else s.conn k
  pending := s.pending
  main := .exited how

@[simp] theorem abandon_conn (how : EchoServer.Ended) (s : State κ) (k : κ) :
    (abandon how s).conn k = if s.pending k then { s.conn k with server := .ended .waiting } else s.conn k := rfl

variable [DecidableEq κ] (S : Service κ)

def State.put (s : State κ) (k : κ) (next : System) : State κ := { s with conn := Function.update s.conn k next }

section put
variable (s : State κ) (k : κ) (next : System)

@[simp] theorem State.put_main : (s.put k next).main = s.main := rfl

@[simp] theorem State.put_pending : (s.put k next).pending = s.pending := rfl

@[simp] theorem State.put_self : (s.put k next).conn k = next := by simp [State.put]

theorem State.put_other {j : κ} (other : j ≠ k) : (s.put k next).conn j = s.conn j := by simp [State.put, other]

theorem State.put_same : s.put k (s.conn k) = s := by rw [State.put, Function.update_eq_self]

end put

def clientTurn (k : κ) (answer : Option Nat) (s : State κ) : State κ × List (Event κ) :=
  let moved := (S.run k).clientStep answer (s.conn k)
  (s.put k moved.1, moved.2.map (.on k))

/-- The loop of `main`. A connection that is not pending is none that `accept` can return, so
that the call still waits. -/
def serverTurn (answer : Option Nat) (next : Option κ) (s : State κ) : State κ × List (Event κ) :=
  match s.main with
  | .accept =>
    match next with
    | none => (abandon (.systemMsg "accept() failed" S.status) s, [.accept none])
    | some k =>
      if s.pending k then
        ({ s with pending := Function.update s.pending k false, main := .serve k }, [.accept (some k)])
      else (s, [])
  | .serve k =>
    if (s.conn k).server = .ended .returned then ({ s with main := .accept }, [.close k])
    else
      let moved := (S.run k).serverStep answer (s.conn k)
      match moved.1.server.failure with
      | none => (s.put k moved.1, moved.2.map (.on k))
      | some how => (abandon how (s.put k moved.1), moved.2.map (.on k))
  | .exited _ => (s, [])

def step (turn : Turn κ) (s : State κ) : State κ × List (Event κ) :=
  match turn.party with
  | .client k => S.clientTurn k turn.answer s
  | .server => S.serverTurn turn.answer turn.next s

def machine : Machine (Turn κ) (State κ) (Event κ) := ⟨S.step⟩

def start : State κ := ⟨fun _ => Run.start, fun _ => true, .accept⟩

/-! ### Histories -/

def history (k : κ) (past : List (Event κ)) : List Seen :=
  past.filterMap fun
    | .on j seen => if j = k then some seen else none
    | _ => none

@[simp] theorem history_append (k : κ) (first second : List (Event κ)) :
    history k (first ++ second) = history k first ++ history k second := List.filterMap_append

@[simp] theorem history_own (k : κ) (seen : List Seen) : history k (seen.map (.on k)) = seen := by
  simp [history, List.filterMap_map]

theorem history_other {k j : κ} (other : j ≠ k) (seen : List Seen) : history k (seen.map (.on j)) = [] := by
  simp [history, other]

omit [DecidableEq κ]

def Event.hold (holder : Option κ) : Event κ → Option κ
  | .accept none | .on _ _ => holder
  | .accept (some k) => some k
  | .close _ => none

def holder (past : List (Event κ)) : Option κ := past.foldl Event.hold none

theorem holder_append (past events : List (Event κ)) :
    holder (past ++ events) = events.foldl Event.hold (holder past) :=
  List.foldl_append

theorem holder_on (past : List (Event κ)) (k : κ) (seen : List Seen) :
    holder (past ++ seen.map (.on k)) = holder past := by
  rw [holder_append]
  induction seen with
  | nil => rfl
  | cons first rest ih => exact ih

theorem accept_of_holder {past : List (Event κ)} {k : κ} (held : holder past = some k) : .accept (some k) ∈ past := by
  induction past using List.reverseRecOn with
  | nil => cases held
  | append_singleton past event ih =>
    rw [holder_append, List.foldl_cons, List.foldl_nil] at held
    cases event with
    | accept result =>
      cases result with
      | none => exact List.mem_append_left _ (ih held)
      | some j =>
        rw [Option.some.inj held]
        exact List.mem_append_right _ (List.mem_singleton_self _)
    | close j => cases held
    | on j seen => exact List.mem_append_left _ (ih held)

end Service
end SocketPrograms.EchoSystem
