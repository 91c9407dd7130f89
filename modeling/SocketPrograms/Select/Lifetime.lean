import Mathlib.Data.Int.Interval
import Mathlib.Data.List.Induction
import SocketPrograms.Select.Descriptors

/-! What the missing `close` of `HandleClient` comes to over the life of the select server: each
client that was ever accepted takes one of the descriptors that the process may have. -/

namespace SocketPrograms.Select
open Lib

inductive History (sockets : List Int) : List Call → State → Prop where
  | serving {past : List Call} {s : State} (keeps : ∀ fd, Call.close fd ∉ past) (still : s ≠ .returned) :
      History sockets past s
  | closed {past : List Call} (keeps : ∀ fd, Call.close fd ∉ past) :
      History sockets (past ++ sockets.map .close) .returned

def State.stillListening (sockets : List Int) (s : State) : Finset Int :=
  if s = .returned then ∅ else listening sockets

theorem turn_stays (sockets : List Int) (ans : Answers) : (turn sockets ans).1 ≠ .returned := by
  rw [turn_state]
  split_ifs <;> simp

theorem History.step {sockets : List Int} {past : List Call} {s : State} (history : History sockets past s)
    (ans : Answers) : History sockets (past ++ (step sockets ans s).2) (step sockets ans s).1 := by
  cases history with
  | closed keeps =>
    rw [Select.step, List.append_nil]
    exact .closed keeps
  | serving keeps still =>
    cases s with
    | running =>
      refine .serving (fun fd member => ?_) (turn_stays sockets ans)
      rcases List.mem_append.mp member with old | new
      · exact keeps fd old
      · exact turn_quiet sockets ans fd new
    | stopping => exact .closed keeps
    | returned => exact absurd rfl still
    | exited =>
      rw [Select.step, List.append_nil]
      exact .serving keeps (by simp)

theorem run_history (sockets : List Int) (inputs : List Answers) :
    History sockets ((server sockets).run inputs .running).2 ((server sockets).run inputs .running).1 := by
  have start : History sockets [] .running := .serving (by simp) (by simp)
  exact (server sockets).invariant_all (History sockets) (fun _ _ ans history => history.step ans) inputs start

theorem accepted_distinct {sockets : List Int} {calls : List Call} (keeps : ∀ fd, Call.close fd ∉ calls)
    (fresh : Each (FreshAccept sockets) calls) :
    (acceptedFds calls).Nodup ∧ ∀ fd ∈ acceptedFds calls, fd ∉ listening sockets := by
  induction calls using List.reverseRecOn with
  | nil => simp [acceptedFds]
  | append_singleton calls call ih =>
    have quiet : ∀ fd, Call.close fd ∉ calls := fun fd member => keeps fd (List.mem_append_left _ member)
    obtain ⟨before, now⟩ := (each_append ..).mp fresh
    obtain ⟨distinct, apart⟩ := ih quiet before
    rw [acceptedFds_append]
    cases call with
    | accept listener result =>
      by_cases success : 0 ≤ result
      · have new : result ∉ openSockets sockets calls := by
          have first : FreshAccept sockets (calls ++ []) (.accept listener result) := ((each_cons ..).mp now).1
          rw [List.append_nil] at first
          exact first.resolve_left (Int.not_lt.mpr success)
        have held : openSockets sockets calls = listening sockets ∪ (acceptedFds calls).toFinset :=
          track_open quiet _
        rw [held, Finset.mem_union, not_or, List.mem_toFinset] at new
        have one : acceptedFds [.accept listener result] = [result] := by simp [acceptedFds, success]
        rw [one]
        refine ⟨List.nodup_append_comm.mp ?_, fun fd member => ?_⟩
        · exact List.nodup_cons.mpr ⟨new.2, distinct⟩
        · rcases List.mem_append.mp member with old | last
          · exact apart fd old
          · exact (List.mem_singleton.mp last) ▸ new.1
      · have none : acceptedFds [.accept listener result] = [] := by simp [acceptedFds, success]
        rw [none, List.append_nil]
        exact ⟨distinct, apart⟩
    | fdSet fd | select nfds result sockSet | fdIsSet fd | getchar | recv fd got | send fd data result | close fd =>
      change (acceptedFds calls ++ []).Nodup ∧ ∀ fd ∈ acceptedFds calls ++ [], fd ∉ listening sockets
      rw [List.append_nil]
      exact ⟨distinct, apart⟩

theorem accepted_success {calls : List Call} {fd : Int} (member : fd ∈ acceptedFds calls) : 0 ≤ fd := by
  obtain ⟨call, -, returned⟩ := List.mem_filterMap.mp member
  cases call with
  | accept listener result =>
    obtain ⟨success, rfl⟩ : 0 ≤ result ∧ result = fd := by simpa using returned
    exact success
  | fdSet fd | select nfds result sockSet | fdIsSet fd | getchar | recv fd got | send fd data result | close fd =>
    cases returned

theorem track_closes (fds : List Int) (sockets : Finset Int) :
    (fds.map Call.close).foldl Call.track sockets = sockets \ fds.toFinset := by
  induction fds generalizing sockets with
  | nil => simp
  | cons fd rest ih =>
    rw [List.map_cons, List.foldl_cons, ih, List.toFinset_cons]
    ext other
    simp only [Call.track, Finset.mem_sdiff, Finset.mem_erase, Finset.mem_insert]
    tauto

theorem acceptedFds_closes (fds : List Int) : acceptedFds (fds.map Call.close) = [] := by
  induction fds with
  | nil => rfl
  | cons fd rest ih => exact ih

theorem History.account {sockets : List Int} {past : List Call} {s : State} (history : History sockets past s)
    (fresh : Each (FreshAccept sockets) past) :
    (acceptedFds past).Nodup ∧ (∀ fd ∈ acceptedFds past, fd ∉ listening sockets) ∧
      openSockets sockets past = s.stillListening sockets ∪ (acceptedFds past).toFinset := by
  cases history with
  | serving keeps still =>
    obtain ⟨distinct, apart⟩ := accepted_distinct keeps fresh
    refine ⟨distinct, apart, ?_⟩
    rw [State.stillListening, if_neg still]
    exact track_open keeps _
  | @closed past keeps =>
    obtain ⟨distinct, apart⟩ := accepted_distinct keeps ((each_append ..).mp fresh).1
    have held : openSockets sockets past = listening sockets ∪ (acceptedFds past).toFinset := track_open keeps _
    rw [acceptedFds_append, acceptedFds_closes, List.append_nil]
    refine ⟨distinct, apart, ?_⟩
    rw [openSockets_append, track_closes, held, State.stillListening, if_pos rfl, Finset.empty_union]
    ext fd
    rw [Finset.mem_sdiff, Finset.mem_union, List.mem_toFinset, List.mem_toFinset]
    constructor
    · rintro ⟨listens | accepted, other⟩
      · exact absurd (List.mem_of_mem_filter (List.mem_toFinset.mp listens)) other
      · exact accepted
    · intro accepted
      refine ⟨Or.inr accepted, fun listens => apart fd accepted ?_⟩
      exact List.mem_toFinset.mpr (List.mem_filter.mpr ⟨listens, by simpa using accepted_success accepted⟩)

/-- In every run in which `accept` returns descriptors that are not in use, the open sockets are
the listening ones, until `main` closes them, and one for each client that was ever accepted. A
process that may have `limit` descriptors accepts no more clients than its listening sockets
leave room for. -/
theorem clients_use_up (sockets : List Int) (inputs : List Answers)
    (fresh : Each (FreshAccept sockets) ((server sockets).run inputs .running).2) :
    let now := (server sockets).run inputs .running
    (acceptedFds now.2).Nodup ∧
      openSockets sockets now.2 = now.1.stillListening sockets ∪ (acceptedFds now.2).toFinset ∧
      (openSockets sockets now.2).card = (now.1.stillListening sockets).card + (acceptedFds now.2).length ∧
      ∀ limit : Nat, (∀ fd ∈ listening sockets ∪ (acceptedFds now.2).toFinset, fd < limit) →
        (acceptedFds now.2).length ≤ limit - (listening sockets).card := by
  intro now
  obtain ⟨distinct, apart, account⟩ := (run_history sockets inputs).account fresh
  have outside : Disjoint (listening sockets) (acceptedFds now.2).toFinset := by
    rw [Finset.disjoint_right]
    intro fd member
    exact apart fd (List.mem_toFinset.mp member)
  have count : (acceptedFds now.2).toFinset.card = (acceptedFds now.2).length := List.toFinset_card_of_nodup distinct
  have still : now.1.stillListening sockets ⊆ listening sockets := by
    unfold State.stillListening
    split_ifs
    · exact Finset.empty_subset _
    · exact Finset.Subset.refl _
  refine ⟨distinct, account, ?_, fun limit bound => ?_⟩
  · calc (openSockets sockets now.2).card
        = (now.1.stillListening sockets ∪ (acceptedFds now.2).toFinset).card := by rw [account]
      _ = (now.1.stillListening sockets).card + (acceptedFds now.2).toFinset.card :=
          Finset.card_union_of_disjoint (Finset.disjoint_of_subset_left still outside)
      _ = (now.1.stillListening sockets).card + (acceptedFds now.2).length := by rw [count]
  · have inside : listening sockets ∪ (acceptedFds now.2).toFinset ⊆ Finset.Ico 0 (limit : Int) := by
      intro fd member
      apply Finset.mem_Ico.mpr ⟨?_, bound fd member⟩
      rcases Finset.mem_union.mp member with listens | accepted
      · simpa using (List.mem_filter.mp (List.mem_toFinset.mp listens)).2
      · exact accepted_success (List.mem_toFinset.mp accepted)
    have room : (listening sockets).card + (acceptedFds now.2).length ≤ limit :=
      calc (listening sockets).card + (acceptedFds now.2).length
          = (listening sockets ∪ (acceptedFds now.2).toFinset).card := by
            rw [Finset.card_union_of_disjoint outside, count]
        _ ≤ (Finset.Ico 0 (limit : Int)).card := Finset.card_le_card inside
        _ = limit := by simp
    omega

/-- Two clients with one listening socket, in a process that may have six descriptors. -/
theorem clients_use_up_two :
    let inputs : List Answers := [⟨some [3], fun _ => 4, fun _ => [], fun _ => false⟩,
      ⟨some [3], fun _ => 5, fun _ => [], fun _ => false⟩]
    (acceptedFds ((server [3]).run inputs .running).2).length ≤ 6 - (listening [3]).card := by
  intro inputs
  have calls : ((server [3]).run inputs .running).2 =
      [.fdSet 0, .fdSet 3, .select 4 1 [3], .fdIsSet 0, .fdIsSet 3, .accept 3 4, .recv 4 (some []),
        .fdSet 0, .fdSet 3, .select 4 1 [3], .fdIsSet 0, .fdIsSet 3, .accept 3 5, .recv 5 (some [])] := by decide
  have fresh : Each (FreshAccept [3]) ((server [3]).run inputs .running).2 := by
    rw [calls]
    simp [FreshAccept, openSockets, listening, Call.track]
  apply (clients_use_up [3] inputs fresh).2.2.2 6
  rw [calls]
  decide

end SocketPrograms.Select
