import SocketPrograms.Greeting.Correct

/-! The receive loops of the IPv6 clients with a server that sends a finite stream and hangs
up. None of them looks for the end of the stream. The client of IPv6_TCP is that of
IPv6_TCP_V2 from its `send` on. -/

namespace SocketPrograms.Greeting
open Lib CString

/-- The `k`-th `recv` may return as many bytes as its entry says, and one more. -/
def recvs (answers : Nat → Nat) (k : Nat) : Turn := ⟨.client, some (answers k + 1)⟩

def inGreetings (s : System) : Bool :=
  match s.client with
  | .receiveGreetings _ _ => true
  | _ => false

def live (s : System) : Bool := !s.client.terminated

namespace Run
variable (run : Run)

def GreetingsEnd (stream : Bytes) (answers : Nat → Nat) : Prop :=
  ∃ calls, inGreetings (run.protocol.runWhile inGreetings (recvs answers) calls 0
    ⟨.receiveGreetings run.greetingBuf.1 0, .closed, stream, []⟩).1 = false

def EchoEnds (stream : Bytes) (answers : Nat → Nat) : Prop :=
  ∃ calls, live (run.protocol.runWhile live (recvs answers) calls 0
    ⟨(run.echoLoop run.echoBuf.1 0).1, .closed, stream, run.echoStr⟩).1 = false

def MainEnds (stream : Bytes) (answers : Nat → Nat) : Prop :=
  ∃ calls, live (run.protocol.runWhile live
    (fun k => if k = 0 then ⟨.client, some run.echoStr.length⟩ else recvs answers k) calls 0
    ⟨.sendEcho, .closed, stream, []⟩).1 = false

inductive AtGreetings (total left : Nat) : System → Prop where
  | here {buf stream toServer : Bytes} (less : total < GREETING_MSG.length) (rest : stream.length = left) :
      AtGreetings total left ⟨.receiveGreetings buf total, .closed, stream, toServer⟩

inductive AtEcho (total left : Nat) : System → Prop where
  | here {buf stream toServer : Bytes} (less : total < run.echoStr.length) (rest : stream.length = left) :
      AtEcho total left ⟨.receiveEcho buf total, .closed, stream, toServer⟩

theorem recv_ended (limit count : Nat) : recv limit [] true (some count) = .got [] [] := rfl

theorem recv_some {limit count : Nat} {stream : Bytes} (some_left : 0 < stream.length) (room : 0 < limit)
    (positive : 0 < count) :
    ∃ bytes rest, recv limit stream true (some count) = .got bytes rest ∧ 0 < bytes.length ∧
      bytes.length ≤ stream.length ∧ rest.length = stream.length - bytes.length := by
  obtain ⟨bytes, rest, received, split, nonempty, -⟩ :=
    recv_got (List.ne_nil_of_length_pos some_left) true room positive
  have sizes := congrArg List.length split
  rw [List.length_append] at sizes
  exact ⟨bytes, rest, received, List.length_pos_of_ne_nil nonempty, by omega, by omega⟩

theorem greetings_collects (answers : Nat → Nat) :
    run.protocol.Collects inGreetings (recvs answers) GREETING_MSG.length AtGreetings where
  working now := by
    cases now with
    | here less rest => exact ⟨less, rfl⟩
  takes {total left s} k now some_left := by
    cases now with
    | @here buf stream toServer less rest =>
      have five : GREETING_MSG.length = 5 := rfl
      have limit : 0 < BUF_SIZE - total - 1 := by
        simp only [BUF_SIZE]
        omega
      obtain ⟨bytes, coming, received, positive, bound, fewer⟩ :=
        recv_some (show 0 < stream.length by omega) limit (show 0 < answers k + 1 by omega)
      refine ⟨bytes.length, positive, by omega, ?_⟩
      simp only [protocol, step, recvs, clientStep, Server.hungUp, received]
      split_ifs with again
      · exact .here again (by omega)
      · unfold checkGreeting
        split_ifs <;> rfl
  waits {total s} k now := by
    cases now with
    | @here buf stream toServer less rest =>
      obtain rfl := List.eq_nil_of_length_eq_zero rest
      simp only [protocol, step, recvs, clientStep, Server.hungUp, recv_ended, List.length_nil, Nat.add_zero,
        if_pos less]
      exact .here less rfl

theorem echo_collects {counts : Nat → Nat} (positive : run.echoStr ≠ [] → ∀ k, 0 < counts k) :
    run.protocol.Collects live (fun k => ⟨.client, some (counts k)⟩) run.echoStr.length run.AtEcho where
  working now := by
    cases now with
    | here less rest => exact ⟨less, rfl⟩
  takes {total left s} k now some_left := by
    cases now with
    | @here buf stream toServer less rest =>
      have asks := positive (List.ne_nil_of_length_pos (by omega)) k
      obtain ⟨bytes, coming, received, some_bytes, bound, fewer⟩ :=
        recv_some (show 0 < stream.length by omega) (show 0 < BUF_SIZE - 1 by decide) asks
      refine ⟨bytes.length, some_bytes, by omega, ?_⟩
      simp only [protocol, step, clientStep, Server.hungUp, received, echoLoop]
      split_ifs with again
      · exact .here again (by omega)
      · rfl
  waits {total s} k now := by
    cases now with
    | @here buf stream toServer less rest =>
      obtain rfl := List.eq_nil_of_length_eq_zero rest
      simp only [protocol, step, clientStep, Server.hungUp, recv_ended, List.length_nil, Nat.add_zero, echoLoop,
        if_pos less]
      exact .here less rfl

theorem echo_ends_iff {counts : Nat → Nat} (positive : run.echoStr ≠ [] → ∀ k, 0 < counts k) (k : Nat)
    (stream toServer : Bytes) :
    (∃ calls, live (run.protocol.runWhile live (fun k => ⟨.client, some (counts k)⟩) calls k
      ⟨(run.echoLoop run.echoBuf.1 0).1, .closed, stream, toServer⟩).1 = false) ↔
        run.echoStr.length ≤ stream.length := by
  by_cases less : 0 < run.echoStr.length
  · have begins : run.AtEcho 0 stream.length ⟨(run.echoLoop run.echoBuf.1 0).1, .closed, stream, toServer⟩ := by
      rw [echoLoop, if_pos less]
      exact .here less rfl
    rw [(run.echo_collects positive).ends_iff k begins, Nat.zero_add]
  · apply iff_of_true _ (by omega)
    refine ⟨0, ?_⟩
    rw [echoLoop, if_neg less]
    rfl

theorem greetings_end_iff (stream : Bytes) (answers : Nat → Nat) :
    run.GreetingsEnd stream answers ↔ GREETING_MSG.length ≤ stream.length := by
  have begins : AtGreetings 0 stream.length ⟨.receiveGreetings run.greetingBuf.1 0, .closed, stream, []⟩ :=
    .here (by decide) rfl
  rw [GreetingsEnd, (run.greetings_collects answers).ends_iff 0 begins, Nat.zero_add]

theorem main_ends_iff (stream : Bytes) (answers : Nat → Nat) :
    run.MainEnds stream answers ↔ run.echoStr.length ≤ stream.length := by
  have counts : (fun k => if k = 0 then (⟨.client, some run.echoStr.length⟩ : Turn) else recvs answers k) =
      fun k => ⟨.client, some (if k = 0 then run.echoStr.length else answers k + 1)⟩ := by
    funext k
    split_ifs <;> rfl
  have positive (nonempty : run.echoStr ≠ []) (k : Nat) :
      0 < if k = 0 then run.echoStr.length else answers k + 1 := by
    split_ifs
    · exact List.length_pos_of_ne_nil nonempty
    · exact Nat.succ_pos _
  have working : live ⟨.sendEcho, .closed, stream, []⟩ = true := rfl
  have sent : (run.protocol.step ⟨.client, some run.echoStr.length⟩ ⟨.sendEcho, .closed, stream, []⟩).1 =
      ⟨(run.echoLoop run.echoBuf.1 0).1, .closed, stream, run.echoStr⟩ := by
    simp [protocol, step, clientStep, send]
  rw [MainEnds, counts, Machine.ends_step _ working]
  simp only [if_true, sent]
  exact run.echo_ends_iff positive 1 stream run.echoStr

/-- Each loop ends exactly when the server sends as many bytes as it waits for. -/
theorem loops_end_iff (stream : Bytes) (answers : Nat → Nat) :
    (run.GreetingsEnd stream answers ↔ GREETING_MSG.length ≤ stream.length) ∧
    (run.EchoEnds stream answers ↔ run.echoStr.length ≤ stream.length) ∧
    (run.MainEnds stream answers ↔ run.echoStr.length ≤ stream.length) :=
  ⟨run.greetings_end_iff stream answers, run.echo_ends_iff (fun _ k => Nat.succ_pos (answers k)) 0 stream _,
    run.main_ends_iff stream answers⟩

theorem shortEcho_clean : NUL ∉ ([104, 105] : Bytes) := by decide

def shortEcho : Run :=
  ⟨[104, 105], shortEcho_clean, ⟨List.replicate BUF_SIZE 0, List.length_replicate⟩,
    ⟨List.replicate BUF_SIZE 0, List.length_replicate⟩⟩

theorem short_streams_wait :
    ¬ shortEcho.GreetingsEnd [104] (fun _ => 0) ∧ ¬ shortEcho.EchoEnds [104] (fun _ => 0) ∧
      ¬ shortEcho.MainEnds [104] (fun _ => 0) := by
  refine ⟨fun ends => ?_, fun ends => ?_, fun ends => ?_⟩
  · exact absurd ((shortEcho.greetings_end_iff [104] _).mp ends) (by decide)
  · exact absurd ((shortEcho.echo_ends_iff (fun _ _ => Nat.succ_pos 0) 0 [104] _).mp ends) (by decide)
  · exact absurd ((shortEcho.main_ends_iff [104] _).mp ends) (by decide)

end Run
end SocketPrograms.Greeting
