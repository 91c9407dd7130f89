import SocketPrograms.Lib.Sweep
import Mathlib.Data.List.GetD

/-! The `pollfd` array of `poll_server.c` and `poll_server2.c`: the allocation with the
two counters that go with it, growing at the end and removing by moving the last entry
into the gap. The abstract value of the array is the list of its live entries. -/

namespace SocketPrograms.Poll
open Lib.Sweep

structure PollFd where
  fd : Int
  events : BitVec 16
  revents : BitVec 16
  deriving DecidableEq, Repr

def POLLIN : BitVec 16 := 0x0001

def PollFd.readable (entry : PollFd) : Bool := entry.revents &&& POLLIN != 0

/-- The variables `pfds`, `fd_count` and `fd_size` of `main`. The list is the whole
allocation, so a cell beyond `fdCount` exists and holds whatever was left there. -/
structure Table where
  pfds : List PollFd
  fdCount : Nat
  fdSize : Nat
  deriving DecidableEq, Repr

/-- `malloc` hands out cells with arbitrary contents. -/
def malloc (size : Nat) (junk : Nat → PollFd) : List PollFd := (List.range size).map junk

def realloc (cells : List PollFd) (size : Nat) (junk : Nat → PollFd) : List PollFd :=
  cells.take size ++ malloc (size - cells.length) junk

def grow (t : Table) (junk : Nat → PollFd) : Table :=
  if t.fdCount = t.fdSize then
    { t with fdSize := t.fdSize * 2, pfds := realloc t.pfds (t.fdSize * 2) junk }
  else t

/-- `add_to_pfds`; `none` is a store outside the allocation. The field `revents` of the
cell is not assigned. -/
def addToPfds (t : Table) (newfd : Int) (junk : Nat → PollFd) : Option Table :=
  let t := grow t junk
  match t.pfds[t.fdCount]? with
  | none => none
  | some cell => some { t with
      pfds := t.pfds.set t.fdCount { cell with fd := newfd, events := POLLIN }
      fdCount := t.fdCount + 1 }

def delFromPfds (t : Table) (i : Nat) : Option Table :=
  if t.fdCount = 0 then none
  else match t.pfds[t.fdCount - 1]? with
    | none => none
    | some last =>
      if i < t.pfds.length then some { t with pfds := t.pfds.set i last, fdCount := t.fdCount - 1 }
      else none

namespace Table

def live (t : Table) : List PollFd := t.pfds.take t.fdCount

def fds (t : Table) : List Int := t.live.map PollFd.fd

def marked (t : Table) (k : Nat) : Bool := t.live[k]?.any PollFd.readable

theorem marked_iff {t : Table} {k : Nat} :
    t.marked k = true ↔ ∃ entry, t.live[k]? = some entry ∧ entry.readable = true := by
  simp [marked, Option.any_eq_true]

theorem fds_getElem? {t : Table} {k : Nat} {entry : PollFd} (here : t.live[k]? = some entry) :
    t.fds[k]? = some entry.fd := by
  simp [fds, here]

/-- `1 <= fd_count <= fd_size`, and `fd_size` is the size of the allocation. -/
structure Sane (t : Table) : Prop where
  positive : 1 ≤ t.fdCount
  bounded : t.fdCount ≤ t.fdSize
  allocated : t.pfds.length = t.fdSize

theorem Sane.length_live {t : Table} (sane : Sane t) : t.live.length = t.fdCount := by
  have := sane.bounded
  have := sane.allocated
  simp only [live, List.length_take]
  omega

theorem getElem?_live {t : Table} {k : Nat} (bound : k < t.fdCount) : t.live[k]? = t.pfds[k]? := by
  simp [live, bound]

/-- What the slot that the next connection gets holds in `revents`: left by the connection
that used the slot before, or never written at all. -/
def staleRevents (t : Table) (junk : Nat → PollFd) : BitVec 16 :=
  ((grow t junk).pfds.getD t.fdCount ⟨0, 0, 0⟩).revents

end Table
open Table

@[simp] theorem length_malloc (size : Nat) (junk : Nat → PollFd) : (malloc size junk).length = size := by
  simp [malloc]

theorem grow_spec {t : Table} (sane : Sane t) (junk : Nat → PollFd) :
    (grow t junk).fdCount = t.fdCount ∧ t.fdCount < (grow t junk).fdSize ∧
      (grow t junk).pfds.length = (grow t junk).fdSize ∧ (grow t junk).live = t.live := by
  have positive := sane.positive
  have bounded := sane.bounded
  have allocated := sane.allocated
  unfold grow
  split
  next full =>
    refine ⟨rfl, ?_, ?_, ?_⟩
    · show t.fdCount < t.fdSize * 2
      omega
    · simp only [realloc, List.length_append, List.length_take, length_malloc]
      omega
    · have kept : t.pfds.take (t.fdSize * 2) = t.pfds := List.take_of_length_le (by omega)
      have exact : t.fdCount = t.pfds.length := by omega
      simp [live, realloc, kept, exact]
  next room => exact ⟨rfl, by omega, allocated, rfl⟩

/-- Adding appends one live entry, whose `revents` is what the slot held before. -/
theorem addToPfds_spec {t : Table} (sane : Sane t) (newfd : Int) (junk : Nat → PollFd) :
    ∃ t', addToPfds t newfd junk = some t' ∧ Sane t' ∧ t'.fdCount = t.fdCount + 1 ∧
      t'.live = t.live ++ [⟨newfd, POLLIN, t.staleRevents junk⟩] := by
  obtain ⟨count, room, allocated, same⟩ := grow_spec sane junk
  have inside : t.fdCount < (grow t junk).pfds.length := by omega
  have result : addToPfds t newfd junk = some { grow t junk with
      pfds := (grow t junk).pfds.set t.fdCount
        { (grow t junk).pfds[t.fdCount] with fd := newfd, events := POLLIN }
      fdCount := t.fdCount + 1 } := by
    simp [addToPfds, count, inside]
  refine ⟨_, result, ?_, ?_, ?_⟩
  · exact ⟨by simp, by simp; omega, by simpa using allocated⟩
  · rfl
  · have front : (grow t junk).pfds.take t.fdCount = t.live := by rw [← same, live, count]
    have slot : (grow t junk).pfds.getD t.fdCount ⟨0, 0, 0⟩ = (grow t junk).pfds[t.fdCount] := by
      simp [List.getD_eq_getElem?_getD, List.getElem?_eq_getElem inside]
    rw [live, staleRevents, slot, List.take_add_one, List.take_set_of_le (Nat.le_refl _), front]
    simp [inside]

/-- Deleting removes by moving the last live entry into the gap. -/
theorem delFromPfds_spec {t : Table} (sane : Sane t) {i : Nat} (inside : i < t.fdCount)
    (more : 1 < t.fdCount) :
    ∃ t', delFromPfds t i = some t' ∧ Sane t' ∧ t'.fdCount = t.fdCount - 1 ∧
      t'.live = swapRemove t.live i := by
  have bounded := sane.bounded
  have allocated := sane.allocated
  have lastInside : t.fdCount - 1 < t.pfds.length := by omega
  have result : delFromPfds t i =
      some { t with pfds := t.pfds.set i t.pfds[t.fdCount - 1], fdCount := t.fdCount - 1 } := by
    simp only [delFromPfds, List.getElem?_eq_getElem lastInside]
    rw [if_neg (by omega), if_pos (by omega)]
  refine ⟨_, result, ?_, ?_, ?_⟩
  · exact ⟨by simp; omega, by simp; omega, by simpa using allocated⟩
  · rfl
  · have last : t.live.getLast? = some t.pfds[t.fdCount - 1] := by
      rw [List.getLast?_eq_getElem?, sane.length_live, getElem?_live (by omega),
        List.getElem?_eq_getElem lastInside]
    simp only [swapRemove, last, List.dropLast_eq_take, List.length_set, sane.length_live]
    simp only [live, List.take_set, List.take_take, Nat.min_eq_left (Nat.sub_le t.fdCount 1)]

end SocketPrograms.Poll
