import SocketPrograms.Poll.Soundness

/-! How often a connection can be passed over. The loop misses a reported client only when a
hang-up before it has moved its entry to a lower index, and no entry ever moves to a higher
one, so the index at which a client stands bounds the passes that can still miss it. -/

namespace SocketPrograms.Poll
open Lib Sweep Table

def polledFds (calls : List Call) : List Int :=
  calls.flatMap fun
    | .poll ready => ready
    | _ => []

/-- `poll` reports the descriptor and the loop does not receive from it. -/
def passedOver (fd : Int) (calls : List Call) : Bool :=
  (polledFds calls).contains fd && !(recvFds calls).contains fd

def timesPassedOver (p : Program) (listener fd : Int) : List (Nat → Answers) → State → Nat
  | [], _ => 0
  | answers :: rest, s =>
      (if passedOver fd (pass p listener answers s).2 then 1 else 0) +
        timesPassedOver p listener fd rest (pass p listener answers s).1

/-! ### Where an entry goes -/

theorem place_swapRemove {α : Type*} {xs : List α} {i k : Nat} {x : α} (here : xs[k]? = some x) (other : k ≠ i)
    (inside : i < xs.length) :
    ∃ k' ≤ k, (swapRemove xs i)[k']? = some x ∧ (k' < k → k' = i) := by
  have bound : k < xs.length := (List.getElem?_eq_some_iff.mp here).1
  rcases Nat.lt_or_ge k (xs.length - 1) with early | last
  · exact ⟨k, le_rfl, (getElem?_swapRemove_ne xs i k other early).trans here, fun less => absurd less (lt_irrefl k)⟩
  · have final : xs.length - 1 = k := by omega
    refine ⟨i, by omega, ?_, fun _ => rfl⟩
    rw [getElem?_swapRemove_self xs i (by omega), final, here]

theorem Effect.place {p : Program} {listener : Int} {ans : Answers} {i : Nat} {t : Table} {entry : PollFd}
    {s : State} {calls : List Call} (effect : Effect p listener ans i t entry s calls)
    (here : t.live[i]? = some entry) {k : Nat} {mine : PollFd} (place : t.live[k]? = some mine)
    (kept : Call.close mine.fd ∉ calls) :
    ∃ k' ≤ k, s.table.live[k']? = some mine ∧ (k' < k → k' = i ∧ 0 < i) := by
  cases effect with
  | idle quiet => exact ⟨k, le_rfl, place, fun less => absurd less (lt_irrefl k)⟩
  | accepted ready own ok sane count grown =>
    have bound : k < t.live.length := (List.getElem?_eq_some_iff.mp place).1
    refine ⟨k, le_rfl, ?_, fun less => absurd less (lt_irrefl k)⟩
    rw [grown, List.getElem?_append_left bound, place]
  | refused ready own failed => exact ⟨k, le_rfl, place, fun less => absurd less (lt_irrefl k)⟩
  | left ready client gone sane count removed =>
    have other : k ≠ i := by
      rintro rfl
      rw [here] at place
      cases place
      simp at kept
    have inside : i < t.live.length := (List.getElem?_eq_some_iff.mp here).1
    obtain ⟨k', le, moved, gap⟩ := place_swapRemove place other inside
    exact ⟨k', le, by rw [removed, moved], fun less => ⟨gap less, client⟩⟩
  | data ready client stays => exact ⟨k, le_rfl, place, fun less => absurd less (lt_irrefl k)⟩

/-- What the loop has done so far to the readable entry that stood at index `k` when it began. -/
inductive Treated (k : Nat) (mine : PollFd) (past : List Call) (s : State) : Prop where
  | ahead {i : Nat} (busy : s.phase = .scan i) (reach : i ≤ k) (place : s.table.live[k]? = some mine)
  | moved {k' : Nat} (place : s.table.live[k']? = some mine) (client : 0 < k') (lower : k' < k)
  | received {k' : Nat} (place : s.table.live[k']? = some mine) (client : 0 < k') (le : k' ≤ k)
      (got : mine.fd ∈ recvFds past)
  | exited (stopped : s.phase = .exited)

theorem Effect.place_pos {p : Program} {listener : Int} {ans : Answers} {i : Nat} {t : Table} {entry : PollFd}
    {s : State} {calls : List Call} (effect : Effect p listener ans i t entry s calls)
    (here : t.live[i]? = some entry) {k : Nat} {mine : PollFd} (place : t.live[k]? = some mine) (client : 0 < k)
    (kept : Call.close mine.fd ∉ calls) : ∃ k' ≤ k, s.table.live[k']? = some mine ∧ 0 < k' := by
  obtain ⟨k', le, moved, gap⟩ := effect.place here place kept
  refine ⟨k', le, moved, ?_⟩
  rcases Nat.lt_or_ge k' k with less | same
  · have := gap less
    omega
  · omega

theorem Effect.treated {p : Program} {listener : Int} {ans : Answers} {i : Nat} {t : Table} {entry : PollFd}
    {s : State} {past calls : List Call} (effect : Effect p listener ans i t entry s calls)
    (here : t.live[i]? = some entry) {k : Nat} {mine : PollFd} (client : 0 < k) (ready : mine.readable = true)
    (kept : Call.close mine.fd ∉ calls) (treated : Treated k mine past ⟨t, .scan i⟩) :
    Treated k mine (past ++ calls) s := by
  cases treated with
  | ahead busy reach place =>
    cases busy
    rcases Nat.lt_or_ge i k with before | reached
    · obtain ⟨k', le, moved, gap⟩ := effect.place here place kept
      rcases Nat.lt_or_ge k' k with less | same
      · have := gap less
        exact .moved moved (by omega) less
      · have fixed : k' = k := by omega
        subst fixed
        rcases effect.advances.1 with next | stopped
        · exact .ahead next before moved
        · exact .exited stopped
    · -- the cursor has come to the entry itself
      have own : i = k := by omega
      subst own
      rw [here] at place
      cases place
      cases effect with
      | idle quiet => exact absurd (quiet.symm.trans ready) (by decide)
      | accepted _ own => omega
      | refused _ own => omega
      | left => simp at kept
      | data _ _ stays => exact .received here client le_rfl (by simp [recvFds])
  | moved place above lower =>
    obtain ⟨k', le, moved, pos⟩ := effect.place_pos here place above kept
    exact .moved moved pos (by omega)
  | received place above le got =>
    obtain ⟨k', le', moved, pos⟩ := effect.place_pos here place above kept
    exact .received moved pos (by omega) (by simp [got])
  | exited stopped => cases stopped

/-! ### One pass -/

/-- The rule for the loop over `pfds`: what each iteration keeps, and the test that ends the
loop, holds after it. -/
theorem scanLoop_rule (p : Program) {listener : Int} (answers : Nat → Answers) {t : Table}
    (wf : WellFormed listener t) (fresh : FreshFor t (answers 0)) (Inv : List Call → State → Prop)
    (begins : Inv [] ⟨t, .scan 0⟩)
    (ends : ∀ past i t, WellFormed listener t → t.fdCount ≤ i → Inv past ⟨t, .scan i⟩ → Inv past ⟨t, .poll⟩)
    (keep : ∀ past i ans t entry s calls, WellFormed listener t → t.live[i]? = some entry →
      Inv past ⟨t, .scan i⟩ → Effect p listener ans i t entry s calls → Inv (past ++ calls) s) :
    Inv (scanLoop p listener answers t).2 (scanLoop p listener answers t).1 := by
  have step (j : Nat) (past : List Call) (s : State)
      (before : Inv past s ∧ WellFormed listener s.table ∧ (s.phase = .scan 0 → FreshFor s.table (answers j)))
      (busy : s.scanning = true) :
      Inv (past ++ ((server p listener).step (answers j) s).2) ((server p listener).step (answers j) s).1 ∧
        WellFormed listener ((server p listener).step (answers j) s).1.table ∧
          (((server p listener).step (answers j) s).1.phase = .scan 0 →
            FreshFor ((server p listener).step (answers j) s).1.table (answers (j + 1))) := by
    obtain ⟨inv, wf, fresh⟩ := before
    have onward := step_past_start (p := p) wf fresh busy
    obtain ⟨t, phase⟩ := s
    cases phase with
    | scan i =>
      have new (first : i = 0) : FreshFor t (answers j) := fresh (congrArg Phase.scan first)
      rcases Nat.lt_or_ge i t.fdCount with inside | outside
      · obtain ⟨entry, here, -, -⟩ := wf.entry inside
        have effect := visit_effect p wf inside here (fun first => (new first).low)
        rw [step_scan inside] at onward ⊢
        exact ⟨keep past i _ t entry _ _ wf here inv effect, effect.wellFormed wf here new,
          fun again => absurd again onward⟩
      · rw [step_scan_end outside, List.append_nil]
        exact ⟨ends past i t wf outside inv, wf, fun again => by cases again⟩
    | poll | exited | crashed => cases busy
  obtain ⟨-, kept, -⟩ := (server p listener).runWhile_invariant State.scanning answers _ step
    (t.fdCount + 3) 0 ⟨begins, wf, fun _ => fresh⟩
  simpa [scanLoop] using kept

theorem scanLoop_place (p : Program) {listener : Int} (answers : Nat → Answers) {t : Table}
    (wf : WellFormed listener t) (fresh : FreshFor t (answers 0)) {k : Nat} {mine : PollFd}
    (here : t.live[k]? = some mine) (client : 0 < k)
    (kept : Call.close mine.fd ∉ (scanLoop p listener answers t).2)
    (running : (scanLoop p listener answers t).1.phase = .poll) :
    ∃ k' ≤ k, (scanLoop p listener answers t).1.table.live[k']? = some mine ∧ 0 < k' ∧
      (mine.readable = true → mine.fd ∉ recvFds (scanLoop p listener answers t).2 → k' < k) := by
  cases ready : mine.readable with
  | false =>
    have stays := scanLoop_rule p answers wf fresh
      (fun past s => Call.close mine.fd ∉ past → ∃ k' ≤ k, s.table.live[k']? = some mine ∧ 0 < k')
      (fun _ => ⟨k, le_rfl, here, client⟩) (fun past i t wf outside inv => inv)
      (by
        intro past i ans t entry s calls wf visited inv effect still
        rw [List.mem_append, not_or] at still
        obtain ⟨k', le, place, above⟩ := inv still.1
        obtain ⟨k'', le', moved, pos⟩ := effect.place_pos visited place above still.2
        exact ⟨k'', by omega, moved, pos⟩)
    obtain ⟨k', le, place, above⟩ := stays kept
    exact ⟨k', le, place, above, fun readable => by cases readable⟩
  | true =>
    have treated := scanLoop_rule p answers wf fresh
      (fun past s => Call.close mine.fd ∉ past → Treated k mine past s)
      (fun _ => .ahead rfl (Nat.zero_le k) here)
      (by
        intro past i t wf outside inv still
        cases inv still with
        | ahead busy reach place =>
          cases busy
          have bound : k < t.live.length := (List.getElem?_eq_some_iff.mp place).1
          rw [wf.length_live] at bound
          omega
        | moved place above lower => exact .moved place above lower
        | received place above le got => exact .received place above le got
        | exited stopped => cases stopped)
      (by
        intro past i ans t entry s calls wf visited inv effect still
        rw [List.mem_append, not_or] at still
        exact effect.treated visited client ready still.2 (inv still.1))
    cases treated kept with
    | ahead busy reach place => exact absurd (running.symm.trans busy) (by simp)
    | moved place above lower => exact ⟨_, by omega, place, above, fun _ _ => lower⟩
    | received place above le got => exact ⟨_, le, place, above, fun _ missed => absurd got missed⟩
    | exited stopped => exact absurd (running.symm.trans stopped) (by simp)

theorem polledFds_of_none {calls : List Call} (none : ∀ ready, Call.poll ready ∉ calls) : polledFds calls = [] := by
  apply List.flatMap_eq_nil_iff.mpr
  intro call member
  cases call with
  | poll ready => exact absurd member (none ready)
  | accept | recv | send | close => rfl

theorem live_of_fds {t : Table} {k : Nat} {fd : Int} (place : t.fds[k]? = some fd) :
    ∃ entry, t.live[k]? = some entry ∧ entry.fd = fd := by
  simpa [fds] using place

@[simp] theorem polledFds_poll (ready : List Int) (calls : List Call) :
    polledFds (.poll ready :: calls) = ready ++ polledFds calls := rfl

@[simp] theorem recvFds_poll (ready : List Int) (calls : List Call) :
    recvFds (.poll ready :: calls) = recvFds calls := rfl

theorem readable_of_reported {listener : Int} {t : Table} (wf : WellFormed listener t) {k : Nat} {mine : PollFd}
    (here : t.live[k]? = some mine) (reported : mine.fd ∈ ready t) : mine.readable = true := by
  obtain ⟨entry, member, marked, same⟩ := mem_ready_iff.mp reported
  obtain ⟨j, place⟩ := List.mem_iff_getElem?.mp member
  have bound : j < t.fds.length := by
    rw [fds, List.length_map]
    exact (List.getElem?_eq_some_iff.mp place).1
  have index : j = k := by
    apply (List.getElem?_inj bound wf.distinct).mp
    rw [fds_getElem? place, fds_getElem? here, same]
  rw [index, here] at place
  exact Option.some.inj place ▸ marked

/-- A pass that ends at the next `poll` lets no open client rise, and one that passes a client
over lets it sink. -/
theorem pass_place (p : Program) {listener : Int} {answers : Nat → Answers} {s : State}
    (wf : WellFormed listener s.table) (fresh : FreshFor s.table (answers 0)) {k : Nat} {fd : Int}
    (place : s.table.fds[k]? = some fd) (client : 0 < k) (kept : Call.close fd ∉ (pass p listener answers s).2)
    (running : (pass p listener answers s).1.phase = .poll) :
    ∃ k', (pass p listener answers s).1.table.fds[k']? = some fd ∧ 0 < k' ∧
      k' + (if passedOver fd (pass p listener answers s).2 then 1 else 0) ≤ k := by
  obtain ⟨t, phase⟩ := s
  by_cases polling : phase = .poll
  · subst polling
    cases result : (answers 0).poll with
    | none =>
      rw [pass_poll_none result] at running
      cases running
    | some revents =>
      rw [pass_poll_some result] at kept running ⊢
      have wf' := report_wf wf revents
      have fresh' : FreshFor (report t revents) (answers 0) := by simpa only [FreshFor, report_fds] using fresh
      obtain ⟨-, -, polls⟩ := scanLoop_calls p answers wf' fresh'
      obtain ⟨mine, here, own⟩ := live_of_fds ((report_fds t revents).symm ▸ place)
      subst own
      have still : Call.close mine.fd ∉ (scanLoop p listener answers (report t revents)).2 :=
        fun member => kept (List.mem_cons_of_mem _ member)
      obtain ⟨k', le, moved, pos, sinks⟩ := scanLoop_place p answers wf' fresh' here client still running
      refine ⟨k', fds_getElem? moved, pos, ?_⟩
      split
      next missed =>
        simp only [passedOver, polledFds_poll, recvFds_poll, polledFds_of_none polls, List.append_nil,
          Bool.and_eq_true, Bool.not_eq_true', List.contains_eq_mem, decide_eq_true_eq,
          decide_eq_false_iff_not] at missed
        exact sinks (readable_of_reported wf' here missed.1) missed.2
      next => omega
  · rw [pass_idle p answers polling]
    exact ⟨k, place, client, by simp [passedOver, polledFds]⟩

/-! ### Whole runs -/

theorem run_idle (p : Program) {listener : Int} (passes : List (Nat → Answers)) {s : State}
    (other : s.phase ≠ .poll) : (turns p listener).run passes s = (s, []) := by
  have idle (answers : Nat → Answers) : (turns p listener).step answers s = (s, []) := pass_idle p answers other
  induction passes with
  | nil => rfl
  | cons answers rest ih => rw [Machine.run_cons, idle, ih, List.nil_append]

theorem run_place (p : Program) {listener : Int} (passes : List (Nat → Answers)) {past : List Call} {s : State}
    (rep : Representation listener past s)
    (fresh : (turns p listener).Along (fun past s answers => AcceptFresh listener past s (answers 0)) passes past s)
    {k : Nat} {fd : Int} (place : s.table.fds[k]? = some fd) (client : 0 < k)
    (kept : Call.close fd ∉ ((turns p listener).run passes s).2)
    (running : ((turns p listener).run passes s).1.phase = .poll) :
    ∃ k', ((turns p listener).run passes s).1.table.fds[k']? = some fd ∧ 0 < k' ∧
      k' + timesPassedOver p listener fd passes s ≤ k := by
  induction passes generalizing past s k with
  | nil => exact ⟨k, place, client, le_rfl⟩
  | cons answers rest ih =>
    rw [Machine.run_cons] at kept running ⊢
    rw [List.mem_append, not_or] at kept
    have now : (pass p listener answers s).1.phase = .poll := by
      by_contra other
      have stopped : (turns p listener).run rest ((turns p listener).step answers s).1 = _ := run_idle p rest other
      rw [stopped] at running
      exact other running
    obtain ⟨k', moved, above, sunk⟩ := pass_place p rep.wf (rep.freshFor fresh.1) place client kept.1 now
    obtain ⟨k'', final, pos, total⟩ := ih (rep.pass (p := p) fresh.1) fresh.2 moved above kept.2 running
    refine ⟨k'', final, pos, ?_⟩
    rw [timesPassedOver]
    have later : k'' + timesPassedOver p listener fd rest (pass p listener answers s).1 ≤ k' := total
    omega

theorem run_representation (p : Program) {listener : Int} (passes : List (Nat → Answers)) {past : List Call}
    {s : State} (rep : Representation listener past s)
    (fresh : (turns p listener).Along (fun past s answers => AcceptFresh listener past s (answers 0)) passes past s) :
    Representation listener (past ++ ((turns p listener).run passes s).2) ((turns p listener).run passes s).1 :=
  (turns p listener).invariant (Representation listener) (fun _ _ _ rep fresh => rep.pass (p := p) fresh) rep fresh

/-- A client that stands at index `k` has sunk by at least one for every pass that passed it
over, so as long as it is connected fewer than `k` of all later passes can do so. -/
theorem timesPassedOver_le_descent (p : Program) (listener : Int) (junk : Nat → PollFd)
    (earlier later : List (Nat → Answers))
    (fresh : (turns p listener).Along (fun past s answers => AcceptFresh listener past s (answers 0))
      (earlier ++ later) [] (start listener junk)) (k : Nat) (fd : Int) :
    let s := ((turns p listener).run earlier (start listener junk)).1
    let after := (turns p listener).run later s
    s.table.fds[k]? = some fd → fd ≠ listener → Call.close fd ∉ after.2 → after.1.phase = .poll →
      ∃ k', after.1.table.fds[k']? = some fd ∧ 0 < k' ∧ k' + timesPassedOver p listener fd later s ≤ k := by
  intro s after place notListener kept running
  obtain ⟨reached, onward⟩ := ((turns p listener).along_append _ earlier later [] (start listener junk)).mp fresh
  have rep := run_representation p earlier (start_representation listener junk) reached
  have client : 0 < k := Nat.pos_of_ne_zero fun first =>
    notListener ((rep.wf.fd_eq_listener_iff place).mpr first)
  exact run_place p later rep onward place client kept running

/-- Clients 4 and 5 join. Then both are reported, client 4 hangs up and client 5 is passed over. -/
theorem timesPassedOver_le_descent_once :
    let s := ((turns .pollServer2 3).run [reporting [0] 4, reporting [0] 5] (start 3 fun _ => ⟨0, 0, 0⟩)).1
    timesPassedOver .pollServer2 3 5 [reporting [1, 2] (-1)] s = 1 ∧
      ∃ k', ((turns .pollServer2 3).run [reporting [1, 2] (-1)] s).1.table.fds[k']? = some 5 ∧ 0 < k' ∧
        k' + timesPassedOver .pollServer2 3 5 [reporting [1, 2] (-1)] s ≤ 2 :=
  ⟨by decide, timesPassedOver_le_descent .pollServer2 3 (fun _ => ⟨0, 0, 0⟩) [reporting [0] 4, reporting [0] 5]
    [reporting [1, 2] (-1)] ⟨Or.inr (by decide), Or.inr (by decide), Or.inl rfl, trivial⟩ 2 5 (by decide) (by decide)
    (by decide) (by decide)⟩

end SocketPrograms.Poll
