import SocketPrograms.Vote.Tally
import SocketPrograms.Vote.Isolation

/-! Which connections the vote server survives. It stops at a line that the stream leaves
unfinished, where `GetNextMsg` ends the process, and at a buffer that `Decode` reads
beyond; every other way a connection can end leads back to `AcceptConnection`. -/

namespace SocketPrograms.Vote
open Lib CString

def nextLine (stream : Bytes) : Bytes := stream.takeWhile (· ≠ DELIM)

def State.stopped (s : State) : Prop := ∃ why, s.phase = .stopped why

def State.rank (s : State) : Nat :=
  match s.phase with
  | .serving stream _ => stream.length
  | _ => 0

theorem nextLine_line {text : Bytes} (clean : DELIM ∉ text) (rest : Bytes) :
    nextLine (text ++ DELIM :: rest) = text := by
  have all : ∀ b ∈ text, decide (b ≠ DELIM) = true := fun b member => by
    simpa using fun same : b = DELIM => clean (same ▸ member)
  rw [nextLine, List.takeWhile_append_of_pos all]
  simp

theorem nextLine_append {text : Bytes} (clean : DELIM ∉ text) (rest : Bytes) :
    nextLine (text ++ rest) = text ++ nextLine rest := by
  have all : ∀ b ∈ text, decide (b ≠ DELIM) = true := fun b member => by
    simpa using fun same : b = DELIM => clean (same ▸ member)
  rw [nextLine, List.takeWhile_append_of_pos all, nextLine]

theorem Accounted.opened {past : List Event} {s : State} (acc : Accounted past s) (conn : Connection) :
    Accounted past (conn.opened s.counts) := by
  refine ⟨acc.exact, ?_, by simp [Connection.opened], acc.replies⟩
  intro stream inBuf here
  obtain ⟨-, rfl⟩ := by simpa [Connection.opened] using here
  exact conn.inBuf.2

end SocketPrograms.Vote
