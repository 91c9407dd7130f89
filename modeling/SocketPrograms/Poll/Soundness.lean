import SocketPrograms.Poll.Completeness

/-! When `recv` is called on a descriptor that the last `poll` did not report. The field
`revents` of a slot is assigned by `poll` only, so a connection accepted in the middle of
a pass is judged by what its slot held before. -/

namespace SocketPrograms.Poll
open Lib Sweep Table

def RecvReported (past : List Call) : Prop :=
  ∀ before fd got after, past = before ++ .recv fd got :: after → fd ∈ lastReport before

def RecvReportedFrom (reported : List Int) (calls : List Call) : Prop :=
  ∀ before fd got after, calls = before ++ .recv fd got :: after → fd ∈ before.foldl Call.announce reported

theorem recvReportedFrom_each (reported : List Int) (calls : List Call) :
    RecvReportedFrom reported calls ↔
      Each (fun before call => ∀ fd got, call = .recv fd got → fd ∈ before.foldl Call.announce reported) calls := by
  constructor
  · intro sound before call after split fd got same
    exact sound before fd got after (same ▸ split)
  · intro each before fd got after split
    exact each before _ after split fd got rfl

theorem recvReportedFrom_nil (reported : List Int) : RecvReportedFrom reported [] := by
  simp [recvReportedFrom_each]

theorem recvReportedFrom_cons (reported : List Int) (call : Call) (calls : List Call) :
    RecvReportedFrom reported (call :: calls) ↔
      (∀ fd got, call = .recv fd got → fd ∈ reported) ∧
        RecvReportedFrom (call.announce reported) calls := by
  simp [recvReportedFrom_each]

theorem recvReportedFrom_append (reported : List Int) (first second : List Call) :
    RecvReportedFrom reported (first ++ second) ↔
      RecvReportedFrom reported first ∧ RecvReportedFrom (first.foldl Call.announce reported) second := by
  simp [recvReportedFrom_each]

theorem recvReportedFrom_iff (reported : List Int) (calls : List Call)
    (quiet : ∀ ready, Call.poll ready ∉ calls) :
    RecvReportedFrom reported calls ↔ ∀ fd ∈ recvFds calls, fd ∈ reported := by
  induction calls with
  | nil => simp [recvReportedFrom_nil, recvFds]
  | cons call rest ih =>
    have later := ih (fun ready member => quiet ready (List.mem_cons_of_mem _ member))
    have same : call.announce reported = reported := by
      cases call with
      | poll ready => exact absurd (List.mem_cons_self ..) (quiet ready)
      | accept listener result => rfl
      | recv fd got => rfl
      | send fd data result => rfl
      | close fd => rfl
    rw [recvReportedFrom_cons, same, later]
    cases call <;> simp [recvFds]

/-- The pass does not receive from a connection that it accepted itself: the slot the
connection gets was left without `POLLIN`, or a marked client hangs up in the same pass. -/
def QuietSlot (answers : Nat → Answers) (s : State) : Prop :=
  ∀ revents, s.phase = .poll → (answers 0).poll = some revents →
    Joins answers (report s.table revents) →
      s.table.staleRevents (answers 0).junk &&& POLLIN = 0 ∨
        ∃ k, 0 < k ∧ (report s.table revents).marked k = true ∧ (answers k).hangsUp = true

theorem quietSlot_iff {answers : Nat → Answers} {t : Table} :
    (∃ k, 0 < k ∧ t.marked k = true ∧ (answers k).hangsUp = true) ↔ 0 < hangUpsBefore answers t t.fdCount := by
  rw [hangUpsBefore, List.countP_pos_iff]
  constructor
  · rintro ⟨k, client, mark, leaves⟩
    obtain ⟨entry, here, -⟩ := marked_iff.mp mark
    have bound : k < t.live.length := (List.getElem?_eq_some_iff.mp here).1
    have inside : k < t.fdCount := by
      rw [live, List.length_take] at bound
      omega
    exact ⟨k, List.mem_range.mpr inside, by simp [client, mark, leaves]⟩
  · rintro ⟨k, -, all⟩
    simp only [Bool.and_eq_true, decide_eq_true_eq] at all
    exact ⟨k, all.1.1, all.1.2, all.2⟩

theorem mem_ready_iff {t : Table} {fd : Int} :
    fd ∈ ready t ↔ ∃ entry ∈ t.live, entry.readable = true ∧ entry.fd = fd := by
  simp [ready, and_assoc]

theorem newcomer_swept_iff {listener : Int} {answers : Nat → Answers} {t : Table}
    (wf : WellFormed listener t) (fresh : FreshFor t (answers 0)) (joins : Joins answers t)
    (stale : t.staleRevents (answers 0).junk &&& POLLIN ≠ 0) :
    (answers 0).accept ∈ sweptFds answers 1 (clients answers t) ↔ hangUpsBefore answers t t.fdCount = 0 := by
  have positive := wf.positive
  have length : (t.live.drop 1).length + 1 = t.fdCount := by
    rw [List.length_drop, wf.length_live]
    omega
  have total := length_clients answers wf
  rw [if_pos joins] at total
  have here : (clients answers t)[(t.live.drop 1).length]? =
      some ⟨(answers 0).accept, POLLIN, t.staleRevents (answers 0).junk⟩ := by
    simp [clients, joins]
  have ready : (⟨(answers 0).accept, POLLIN, t.staleRevents (answers 0).junk⟩ : PollFd).readable = true := by
    simpa [PollFd.readable] using stale
  have swept := mem_sweptFds_iff answers 1 (clients_nodup wf fresh) here ready
  rw [countP_gone_eq answers (Nat.le_refl _), length] at swept
  rw [swept]
  omega

theorem sweptFds_reported_iff {listener : Int} {answers : Nat → Answers} {t : Table}
    (wf : WellFormed listener t) (fresh : FreshFor t (answers 0)) :
    (∀ fd ∈ sweptFds answers 1 (clients answers t), fd ∈ ready t) ↔
      (Joins answers t → t.staleRevents (answers 0).junk &&& POLLIN = 0 ∨
        0 < hangUpsBefore answers t t.fdCount) := by
  have old : ∀ entry ∈ t.live.drop 1, entry.readable = true → entry.fd ∈ ready t := fun entry member mark =>
    mem_ready_iff.mpr ⟨entry, List.mem_of_mem_drop member, mark, rfl⟩
  constructor
  · intro sound joins
    by_cases stale : t.staleRevents (answers 0).junk &&& POLLIN = 0
    · exact Or.inl stale
    · refine Or.inr (Nat.pos_of_ne_zero fun none => ?_)
      have reported := sound _ ((newcomer_swept_iff wf fresh joins stale).mpr none)
      obtain ⟨entry, member, -, same⟩ := mem_ready_iff.mp reported
      rcases fresh with failed | ⟨-, new⟩
      · have := joins.2
        omega
      · exact new (List.mem_map.mpr ⟨entry, member, same⟩)
  · intro quiet fd swept
    obtain ⟨entry, member, mark, rfl⟩ := sweptFds_subset answers 1 _ swept
    rcases List.mem_append.mp member with known | new
    · exact old entry known mark
    · split at new
      next joins =>
        rw [List.mem_singleton] at new
        subst new
        have stale : t.staleRevents (answers 0).junk &&& POLLIN ≠ 0 := by
          simpa [PollFd.readable] using mark
        have none := (newcomer_swept_iff wf fresh joins stale).mp swept
        rcases quiet joins with unset | leaves
        · exact absurd unset stale
        · omega
      next alone => cases new

theorem report_stale (t : Table) (revents : Nat → BitVec 16) (junk : Nat → PollFd) :
    (report t revents).staleRevents junk = t.staleRevents junk := by
  have cell : ∀ size, (realloc (report t revents).pfds size junk)[t.fdCount]? =
      (realloc t.pfds size junk)[t.fdCount]? := by
    intro size
    simp [realloc, report, List.getElem?_append, List.getElem?_take, List.getElem?_mapIdx]
  have own : (report t revents).pfds[t.fdCount]? = t.pfds[t.fdCount]? := by
    simp [report, List.getElem?_mapIdx]
  have count : (report t revents).fdCount = t.fdCount := rfl
  have size : (report t revents).fdSize = t.fdSize := rfl
  simp only [staleRevents, List.getD_eq_getElem?_getD, grow, count, size]
  split
  · rw [cell]
  · rw [own]

theorem pass_poll_some {p : Program} {listener : Int} {answers : Nat → Answers} {t : Table}
    {revents : Nat → BitVec 16} (result : (answers 0).poll = some revents) :
    pass p listener answers ⟨t, .poll⟩ =
      ((scanLoop p listener answers (report t revents)).1,
        .poll (ready (report t revents)) :: (scanLoop p listener answers (report t revents)).2) := by
  simp only [pass, step_poll_some result]
  rfl

theorem pass_poll_none {p : Program} {listener : Int} {answers : Nat → Answers} {t : Table}
    (failed : (answers 0).poll = none) : pass p listener answers ⟨t, .poll⟩ = (⟨t, .exited⟩, []) := by
  simp only [pass, step_poll_none failed]
  rfl

theorem pass_idle (p : Program) {listener : Int} (answers : Nat → Answers) {s : State} (other : s.phase ≠ .poll) :
    pass p listener answers s = (s, []) := by
  obtain ⟨t, phase⟩ := s
  cases phase with
  | poll => exact absurd rfl other
  | scan i | exited | crashed => rfl

theorem pass_sound_iff (p : Program) {listener : Int} (answers : Nat → Answers) {s : State}
    (wf : WellFormed listener s.table) (fresh : FreshFor s.table (answers 0)) (reported : List Int) :
    RecvReportedFrom reported (pass p listener answers s).2 ↔ QuietSlot answers s := by
  obtain ⟨t, phase⟩ := s
  by_cases polling : phase = .poll
  · subst polling
    cases result : (answers 0).poll with
    | none => simp [pass_poll_none result, recvReportedFrom_nil, QuietSlot, result]
    | some revents =>
      have wf' := report_wf wf revents
      have fresh' : FreshFor (report t revents) (answers 0) := by simpa only [FreshFor, report_fds] using fresh
      obtain ⟨recvs, -, polls⟩ := scanLoop_calls p answers wf' fresh'
      rw [pass_poll_some result, recvReportedFrom_cons]
      simp only [Call.announce, reduceCtorEq, false_implies, implies_true, true_and]
      rw [recvReportedFrom_iff _ _ polls, recvs]
      have condition : QuietSlot answers ⟨t, .poll⟩ ↔ (Joins answers (report t revents) →
          (report t revents).staleRevents (answers 0).junk &&& POLLIN = 0 ∨
            0 < hangUpsBefore answers (report t revents) (report t revents).fdCount) := by
        simp [QuietSlot, result, report_stale, quietSlot_iff]
      rw [condition, ← sweptFds_reported_iff wf' fresh']
      split
      next short =>
        have alone : ¬Joins answers (report t revents) := fun joins => by
          have := joins.2
          have := short.2.2
          omega
        simpa using (sweptFds_reported_iff wf' fresh').mpr (fun joins => absurd joins alone)
      next whole => rfl
  · rw [pass_idle p answers polling]
    simp [recvReportedFrom_nil, QuietSlot, polling]

/-! ### Whole runs -/

theorem Representation.pass {p : Program} {listener : Int} {past : List Call} {s : State}
    {answers : Nat → Answers} (rep : Representation listener past s)
    (fresh : AcceptFresh listener past s (answers 0)) :
    Representation listener (past ++ (pass p listener answers s).2) (pass p listener answers s).1 := by
  obtain ⟨t, phase⟩ := s
  by_cases polling : phase = .poll
  · subst polling
    have polled := rep.step (p := p) (fun _ => fresh)
    have allowed : AcceptFresh listener (past ++ ((server p listener).step (answers 0) ⟨t, .poll⟩).2)
        ((server p listener).step (answers 0) ⟨t, .poll⟩).1 (answers 0) := by
      cases result : (answers 0).poll <;>
        simpa [AcceptFresh, step_poll_none, step_poll_some, result, openClients_append, Call.track] using fresh
    obtain ⟨later, kept, -⟩ := (server p listener).runWhile_invariant State.scanning answers
      (fun k past s => Representation listener past s ∧
        (s.phase = .scan 0 → AcceptFresh listener past s (answers k)))
      (by
        rintro k past s ⟨rep, fresh⟩ busy
        have onward := step_past_start (p := p) rep.wf (fun first => rep.freshFor (fresh first)) busy
        exact ⟨rep.step fresh, fun again => absurd again onward⟩)
      (t.fdCount + 3) 0 ⟨polled, fun _ => allowed⟩
    simpa [Poll.pass] using kept
  · rw [pass_idle p answers polling, List.append_nil]
    exact rep

theorem recvReportedFrom_run_iff (p : Program) {listener : Int} (passes : List (Nat → Answers)) {past : List Call}
    {s : State} (reported : List Int) (rep : Representation listener past s)
    (fresh : (turns p listener).Along (fun past s answers => AcceptFresh listener past s (answers 0)) passes past s) :
    RecvReportedFrom reported ((turns p listener).run passes s).2 ↔
      (turns p listener).Along (fun _ s answers => QuietSlot answers s) passes past s := by
  induction passes generalizing past s reported with
  | nil => simp [recvReportedFrom_nil, Machine.Along]
  | cons answers rest ih =>
    have first := pass_sound_iff p answers rep.wf (rep.freshFor fresh.1) reported
    have onward := ih (((turns p listener).step answers s).2.foldl Call.announce reported)
      (rep.pass (p := p) fresh.1) fresh.2
    rw [Machine.run_cons, recvReportedFrom_append, Machine.Along]
    exact and_congr first onward

/-- In every run, `recv` is called on reported descriptors only, if and only if every pass
leaves the connection that it accepts alone. -/
theorem recv_reported_iff (p : Program) (listener : Int) (junk : Nat → PollFd)
    (passes : List (Nat → Answers))
    (fresh : (turns p listener).Along (fun past s answers => AcceptFresh listener past s (answers 0))
      passes [] (start listener junk)) :
    RecvReported ((turns p listener).run passes (start listener junk)).2 ↔
      (turns p listener).Along (fun _ s answers => QuietSlot answers s) passes [] (start listener junk) :=
  recvReportedFrom_run_iff p passes [] (start_representation listener junk) fresh

def reporting (reported : List Nat) (newfd : Int) : Nat → Answers := fun _ => {
  poll := some fun k => if k ∈ reported then POLLIN else 0
  accept := newfd
  recv := some []
  send := fun _ => -1
  junk := fun _ => ⟨0, 0, 0⟩ }

/-- Client 4 joins and hangs up. Client 5 gets its slot with `POLLIN` still set, and `recv` is
called on it in the pass that accepted it. -/
theorem recv_on_idle_client :
    ¬RecvReported ((turns .pollServer2 3).run [reporting [0] 4, reporting [1] (-1), reporting [0] 5]
        (start 3 fun _ => ⟨0, 0, 0⟩)).2 ∧
      ¬RecvReported ((turns .pollServer 3).run [reporting [0] 4, reporting [1] (-1), reporting [0] 5]
        (start 3 fun _ => ⟨0, 0, 0⟩)).2 := by
  refine ⟨fun sound => ?_, fun sound => ?_⟩
  · exact absurd (sound [.poll [3], .accept 3 4, .poll [4], .recv 4 (some []), .close 4, .poll [3], .accept 3 5]
      5 (some []) [.close 5] (by decide)) (by decide)
  · exact absurd (sound [.poll [3], .accept 3 4, .poll [4], .recv 4 (some []), .close 4, .poll [3], .accept 3 5]
      5 (some []) [.close 5] (by decide)) (by decide)

theorem recv_reported_blank :
    RecvReported ((turns .pollServer2 3).run [reporting [0] 4, reporting [1] (-1)]
      (start 3 fun _ => ⟨0, 0, 0⟩)).2 := by
  refine (recv_reported_iff .pollServer2 3 (fun _ => ⟨0, 0, 0⟩) [reporting [0] 4, reporting [1] (-1)] ?_).mpr ?_
  · exact ⟨Or.inr (by decide), Or.inl rfl, trivial⟩
  · refine ⟨?_, ?_, trivial⟩
    · intro revents _ _ _
      exact Or.inl (by decide)
    · intro revents _ result joins
      exact absurd joins.2 (by decide)

end SocketPrograms.Poll
