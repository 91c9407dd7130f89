import SocketPrograms.Lib.CString

/-! `SIGIOHandler` of `UDPEchoServer-SIGIO.c`. The kernel keeps the datagrams that arrived at
the socket and the errors that are to be reported on it, in order. -/

namespace SocketPrograms.Sigio
open Lib.CString

def bufSize : Nat := 100

/-- What waits at the socket: a datagram, or an error other than `EWOULDBLOCK`. -/
inductive Pending (α : Type) where
  | datagram (clntAddr : α) (payload : Bytes)
  | error
deriving DecidableEq, Repr

inductive Ended where
  | returned
  | exited
deriving DecidableEq, Repr

structure Outcome (α : Type) where
  sent : List (α × Bytes)
  queue : List (Pending α)
  ended : Ended
deriving DecidableEq, Repr

variable {α : Type}

/-- The handler, with what its calls of `sendto` return, one after another. `recvfrom` cuts a datagram
to the buffer, and on an empty queue it fails with `EWOULDBLOCK`, which ends the loop. -/
def sigioHandler (sendto : Nat → α → Bytes → Int) : List (Pending α) → Outcome α
  | [] => ⟨[], [], .returned⟩
  | .error :: queue => ⟨[], queue, .exited⟩
  | .datagram clntAddr payload :: queue =>
      let buf := payload.take bufSize
      let numBytesSent := sendto 0 clntAddr buf
      if numBytesSent < 0 then ⟨[], queue, .exited⟩
      else if numBytesSent ≠ buf.length then ⟨[(clntAddr, buf.take numBytesSent.toNat)], queue, .exited⟩
      else if 0 < buf.length then
        let later := sigioHandler (fun k => sendto (k + 1)) queue
        { later with sent := (clntAddr, buf) :: later.sent }
      else ⟨[(clntAddr, buf)], queue, .returned⟩

def waiting (datagrams : List (α × Bytes)) : List (Pending α) := datagrams.map fun d => .datagram d.1 d.2

def Drains (sendto : Nat → α → Bytes → Int) (datagrams : List (α × Bytes)) : Prop :=
  sigioHandler sendto (waiting datagrams) = ⟨datagrams, [], .returned⟩

section full
variable {sendto : Nat → α → Bytes → Int} (full : ∀ k clntAddr buf, sendto k clntAddr buf = buf.length)
include full

theorem sigioHandler_datagram (clntAddr : α) {payload : Bytes} (short : payload.length ≤ bufSize)
    (queue : List (Pending α)) :
    sigioHandler sendto (.datagram clntAddr payload :: queue) =
      if payload = [] then ⟨[(clntAddr, [])], queue, .returned⟩
      else
        { sigioHandler (fun k => sendto (k + 1)) queue with
          sent := (clntAddr, payload) :: (sigioHandler (fun k => sendto (k + 1)) queue).sent } := by
  have whole : payload.take bufSize = payload := List.take_of_length_le short
  have sent : ¬ ((payload.length : Int) < 0) := by omega
  by_cases empty : payload = []
  · subst empty
    simp [sigioHandler, full]
  · have positive := List.length_pos_of_ne_nil empty
    simp [sigioHandler, whole, full, sent, positive, empty]

/-- How a call splits the datagrams at the socket: those it sends back, of which only the
last can be empty, and those it leaves behind an empty one. -/
structure Splits (datagrams sent left : List (α × Bytes)) : Prop where
  whole : datagrams = sent ++ left
  solid : ∀ d ∈ sent.dropLast, d.2 ≠ []
  stopped : left ≠ [] → ∃ d ∈ sent, d.2 = []

theorem sigioHandler_splits {datagrams : List (α × Bytes)} (short : ∀ d ∈ datagrams, d.2.length ≤ bufSize) :
    ∃ sent left, Splits datagrams sent left ∧
      sigioHandler sendto (waiting datagrams) = ⟨sent, waiting left, .returned⟩ := by
  induction datagrams generalizing sendto with
  | nil => exact ⟨[], [], ⟨rfl, by simp, by simp⟩, rfl⟩
  | cons d datagrams ih =>
    have head := short d List.mem_cons_self
    obtain ⟨sent, left, splits, ends⟩ := ih (fun k => full (k + 1)) fun d' member =>
      short d' (List.mem_cons_of_mem d member)
    have step := sigioHandler_datagram full d.1 head (waiting datagrams)
    have ahead : waiting (d :: datagrams) = .datagram d.1 d.2 :: waiting datagrams := rfl
    rw [ahead, step]
    by_cases empty : d.2 = []
    · refine ⟨[d], datagrams, ⟨rfl, by simp, fun _ => ⟨d, List.mem_singleton_self d, empty⟩⟩, ?_⟩
      rw [if_pos empty, ← empty]
    · refine ⟨d :: sent, left, ⟨by rw [splits.whole, List.cons_append], ?_, fun more => ?_⟩, ?_⟩
      · intro d' member
        cases sent with
        | nil => simp at member
        | cons next sent =>
          rw [List.dropLast_cons_cons, List.mem_cons] at member
          rcases member with rfl | member
          · exact empty
          · exact splits.solid d' member
      · obtain ⟨d', member, nothing⟩ := splits.stopped more
        exact ⟨d', List.mem_cons_of_mem d member, nothing⟩
      · rw [if_neg empty, ends]

/-- A call empties the socket unless an empty datagram has another one behind it. -/
theorem drains_iff {datagrams : List (α × Bytes)} (short : ∀ d ∈ datagrams, d.2.length ≤ bufSize) :
    Drains sendto datagrams ↔ ∀ d ∈ datagrams.dropLast, d.2 ≠ [] := by
  obtain ⟨sent, left, splits, ends⟩ := sigioHandler_splits full short
  constructor
  · intro drains
    have same : sent = datagrams := congrArg Outcome.sent (ends.symm.trans drains)
    rw [← same]
    exact splits.solid
  · intro solid
    have nothing : left = [] := by
      by_contra more
      obtain ⟨d, member, empty⟩ := splits.stopped more
      rw [splits.whole, List.dropLast_append_of_ne_nil more] at solid
      exact solid d (List.mem_append_left _ member) empty
    rw [Drains, ends, splits.whole, nothing, List.append_nil]
    rfl

end full

theorem drains_seven : Drains (fun _ _ buf => buf.length) [((1 : Nat), [7]), (2, [])] :=
  (drains_iff (fun _ _ _ => rfl) (by decide)).mpr (by decide)

/-- An empty datagram in front of another one. -/
theorem empty_not_drained : ¬ Drains (fun _ _ buf => buf.length) [((1 : Nat), []), (2, [7])] := by
  have left : (sigioHandler (fun _ _ buf => buf.length) (waiting [((1 : Nat), []), (2, [7])])).queue =
    [.datagram 2 [7]] := by decide
  intro drains
  rw [drains] at left
  cases left

end SocketPrograms.Sigio
