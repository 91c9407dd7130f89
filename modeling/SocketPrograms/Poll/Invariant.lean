import SocketPrograms.Poll.Server

/-! What one iteration of either loop can do, and the representation invariant of the
`pollfd` array that follows from it for every reachable state. -/

namespace SocketPrograms.Poll
open Lib Sweep Table

/-- The array invariant: the listener stands first and no descriptor stands twice. -/
structure WellFormed (listener : Int) (t : Table) : Prop extends Sane t where
  head : t.fds[0]? = some listener
  distinct : t.fds.Nodup

namespace WellFormed
variable {listener : Int} {t : Table}

theorem length_fds (wf : WellFormed listener t) : t.fds.length = t.fdCount := by
  simp [fds, wf.length_live]

theorem entry (wf : WellFormed listener t) {i : Nat} (inside : i < t.fdCount) :
    ∃ entry, t.live[i]? = some entry ∧ t.pfds[i]? = some entry ∧ t.fds[i]? = some entry.fd := by
  have bound : i < t.live.length := by rw [wf.length_live]; exact inside
  refine ⟨t.live[i], List.getElem?_eq_getElem bound, ?_, ?_⟩
  · rw [← getElem?_live inside, List.getElem?_eq_getElem bound]
  · simp [fds, List.getElem?_eq_getElem bound]

theorem fd_eq_listener_iff (wf : WellFormed listener t) {i : Nat} {fd : Int} (place : t.fds[i]? = some fd) :
    fd = listener ↔ i = 0 := by
  constructor
  · rintro rfl
    have inside : i < t.fds.length := (List.getElem?_eq_some_iff.mp place).1
    exact (List.getElem?_inj inside wf.distinct).mp (place.trans wf.head.symm)
  · rintro rfl
    exact Option.some.inj (place.symm.trans wf.head)

theorem add {t' : Table} {newfd : Int} {revents : BitVec 16} (wf : WellFormed listener t) (sane : Sane t')
    (grown : t'.live = t.live ++ [⟨newfd, POLLIN, revents⟩]) (fresh : newfd ∉ t.fds) :
    WellFormed listener t' where
  toSane := sane
  head := by
    have bound : 0 < t.fds.length := by rw [wf.length_fds]; exact wf.positive
    simp only [fds, grown, List.map_append] at bound ⊢
    rw [List.getElem?_append_left bound]
    exact wf.head
  distinct := by
    simp only [fds, grown, List.map_append, List.map_cons, List.map_nil]
    exact List.nodup_append.mpr ⟨wf.distinct, List.nodup_singleton _, by
      intro fd member other single same
      rw [List.mem_singleton.mp single] at same
      exact fresh (same ▸ member)⟩

theorem remove {t' : Table} {i : Nat} {fd : Int} (wf : WellFormed listener t) (sane : Sane t')
    (client : 0 < i) (place : t.fds[i]? = some fd) (removed : t'.live = swapRemove t.live i) :
    WellFormed listener t' ∧ ∀ other, other ∈ t'.fds ↔ other ∈ t.fds ∧ other ≠ fd := by
  have inside : i < t.fds.length := (List.getElem?_eq_some_iff.mp place).1
  have insideLive : i < t.live.length := by simpa [fds] using inside
  have perm : t'.fds.Perm (t.fds.eraseIdx i) := by
    simp only [fds, removed, List.eraseIdx_map]
    exact (swapRemove_perm t.live i insideLive).map _
  refine ⟨⟨sane, ?_, perm.nodup_iff.mpr (wf.distinct.eraseIdx i)⟩, ?_⟩
  · have kept := getElem?_swapRemove_ne t.live i 0 (by omega) (by omega)
    have first := wf.head
    simp only [fds, List.getElem?_map, removed, kept] at first ⊢
    exact first
  · intro other
    rw [perm.mem_iff]
    have value : t.fds[i] = fd := (List.getElem?_eq_some_iff.mp place).2
    rw [← wf.distinct.erase_getElem i inside, value, wf.distinct.mem_erase_iff]
    exact and_comm

end WellFormed

def Program.afterRefusal : Program → Nat → Phase
  | .pollServer, i => .scan (i + 1)
  | .pollServer2, _ => .exited

def Program.replies : Program → Int → Answers → Nat → Table → Int → List Call
  | .pollServer, listener, ans, i, t, _ => PollServer.broadcast listener ans i t
  | .pollServer2, _, ans, _, _, sender => [.send sender ans.data (ans.send 0)]

/-- Everything one iteration over a live entry can do. -/
inductive Effect (p : Program) (listener : Int) (ans : Answers) (i : Nat) (t : Table) (entry : PollFd) :
    State → List Call → Prop where
  | idle (quiet : entry.readable = false) : Effect p listener ans i t entry ⟨t, .scan (i + 1)⟩ []
  | accepted {t' : Table} (ready : entry.readable = true) (own : i = 0) (ok : 0 ≤ ans.accept)
      (sane : Sane t') (count : t'.fdCount = t.fdCount + 1)
      (grown : t'.live = t.live ++ [⟨ans.accept, POLLIN, t.staleRevents ans.junk⟩]) :
      Effect p listener ans i t entry ⟨t', .scan (i + 1)⟩ [.accept listener ans.accept]
  | refused (ready : entry.readable = true) (own : i = 0) (failed : ans.accept = -1) :
      Effect p listener ans i t entry ⟨t, p.afterRefusal i⟩ [.accept listener ans.accept]
  | left {t' : Table} (ready : entry.readable = true) (client : 0 < i) (gone : ans.hangsUp = true)
      (sane : Sane t') (count : t'.fdCount = t.fdCount - 1) (removed : t'.live = swapRemove t.live i) :
      Effect p listener ans i t entry ⟨t', .scan (i + 1)⟩ [.recv entry.fd ans.recv, .close entry.fd]
  | data (ready : entry.readable = true) (client : 0 < i) (stays : ans.hangsUp = false) :
      Effect p listener ans i t entry ⟨t, .scan (i + 1)⟩
        (.recv entry.fd ans.recv :: p.replies listener ans i t entry.fd)

theorem hangUp_effect (p : Program) (listener : Int) {ans : Answers} {i : Nat} {t : Table} {entry : PollFd}
    (sane : Sane t) (inside : i < t.fdCount) (ready : entry.readable = true) (client : 0 < i)
    (gone : ans.hangsUp = true) :
    Effect p listener ans i t entry (hangUp ans i entry.fd t).1 (hangUp ans i entry.fd t).2 := by
  obtain ⟨t', removed, sane', count, live⟩ := delFromPfds_spec sane inside (by omega)
  simp only [hangUp, removed]
  exact .left ready client gone sane' count live

theorem welcome_effect (p : Program) (listener : Int) {ans : Answers} {i : Nat} {t : Table} {entry : PollFd}
    (sane : Sane t) (ready : entry.readable = true) (own : i = 0) (ok : 0 ≤ ans.accept) :
    Effect p listener ans i t entry (welcome listener ans i t).1 (welcome listener ans i t).2 := by
  obtain ⟨t', added, sane', count, live⟩ := addToPfds_spec sane ans.accept ans.junk
  simp only [welcome, added]
  exact .accepted ready own ok sane' count live

/-- The one place where the two loop bodies are unfolded. -/
theorem visit_effect (p : Program) {listener : Int} {ans : Answers} {i : Nat} {t : Table} {entry : PollFd}
    (wf : WellFormed listener t) (inside : i < t.fdCount) (here : t.live[i]? = some entry)
    (result : i = 0 → -1 ≤ ans.accept) :
    Effect p listener ans i t entry (p.visit listener ans i t).1 (p.visit listener ans i t).2 := by
  have cell : t.pfds[i]? = some entry := by rw [← getElem?_live inside]; exact here
  have own := wf.fd_eq_listener_iff (show t.fds[i]? = some entry.fd by simp [fds, here])
  cases quiet : entry.readable with
  | false => cases p <;> simpa [Program.visit, PollServer.visit, PollServer2.visit, cell, quiet] using .idle quiet
  | true =>
    by_cases first : i = 0
    · have place : entry.fd = listener := own.mpr first
      have low := result first
      by_cases ok : 0 ≤ ans.accept
      · have effect := welcome_effect p listener wf.toSane quiet first ok
        have kept : ans.accept ≠ -1 := by omega
        have nonneg : ¬ ans.accept < 0 := by omega
        cases p <;> simpa [Program.visit, PollServer.visit, PollServer2.visit, PollServer2.acceptConn,
          cell, quiet, place, kept, nonneg] using effect
      · have failed : ans.accept = -1 := by omega
        have effect : Effect p listener ans i t entry ⟨t, p.afterRefusal i⟩ [.accept listener ans.accept] :=
          .refused quiet first failed
        cases p <;> simpa [Program.visit, PollServer.visit, PollServer2.visit, PollServer2.acceptConn,
          Program.afterRefusal, cell, quiet, place, failed] using effect
    · have place : entry.fd ≠ listener := fun same => first (own.mp same)
      cases gone : ans.hangsUp with
      | true =>
        have none : ans.nbytes ≤ 0 := by simpa [Answers.hangsUp] using gone
        have effect := hangUp_effect p listener wf.toSane inside quiet (by omega) gone
        cases p <;> simpa [Program.visit, PollServer.visit, PollServer2.visit, PollServer2.handler,
          cell, quiet, place, none] using effect
      | false =>
        have positive : ¬ ans.nbytes ≤ 0 := by simpa [Answers.hangsUp] using gone
        have effect : Effect p listener ans i t entry ⟨t, .scan (i + 1)⟩
            (.recv entry.fd ans.recv :: p.replies listener ans i t entry.fd) :=
          .data quiet (by omega) gone
        cases p <;> simpa [Program.visit, PollServer.visit, PollServer2.visit, PollServer2.handler,
          Program.replies, cell, quiet, place, positive] using effect

def FreshFor (t : Table) (ans : Answers) : Prop := ans.accept = -1 ∨ 0 ≤ ans.accept ∧ ans.accept ∉ t.fds

theorem FreshFor.low {t : Table} {ans : Answers} (fresh : FreshFor t ans) : -1 ≤ ans.accept := by
  rcases fresh with failed | ⟨ok, -⟩ <;> omega

namespace Effect
variable {p : Program} {listener : Int} {ans : Answers} {i : Nat} {t : Table} {entry : PollFd}
  {s : State} {calls : List Call}

theorem wellFormed (effect : Effect p listener ans i t entry s calls) (wf : WellFormed listener t)
    (here : t.live[i]? = some entry) (fresh : i = 0 → FreshFor t ans) : WellFormed listener s.table := by
  cases effect with
  | idle quiet => exact wf
  | accepted ready own ok sane count grown =>
    rcases fresh own with failed | ⟨-, new⟩
    · omega
    · exact wf.add sane grown new
  | refused ready own failed => exact wf
  | left ready client gone sane count removed =>
    have place : t.fds[i]? = some entry.fd := by simp [fds, here]
    exact (wf.remove sane client place removed).1
  | data ready client stays => exact wf

theorem advances (effect : Effect p listener ans i t entry s calls) :
    (s.phase = .scan (i + 1) ∨ s.phase = .exited) ∧
      s.table.fdCount ≤ t.fdCount + (if i = 0 then 1 else 0) := by
  cases effect with
  | idle quiet => simp
  | accepted ready own ok sane count grown => simp [own, count]
  | refused ready own failed => cases p <;> simp [Program.afterRefusal]
  | left ready client gone sane count removed => simp; omega
  | data ready client stays => simp

end Effect

/-! ### Termination of a pass -/

def State.rank (s : State) : Nat :=
  match s.phase with
  | .scan 0 => s.table.fdCount + 2
  | .scan i => s.table.fdCount + 1 - i
  | _ => 0

theorem step_poll_none {p : Program} {listener : Int} {ans : Answers} {t : Table} (failed : ans.poll = none) :
    (server p listener).step ans ⟨t, .poll⟩ = (⟨t, .exited⟩, []) := by
  simp [server, step, failed]

theorem step_poll_some {p : Program} {listener : Int} {ans : Answers} {t : Table} {revents : Nat → BitVec 16}
    (result : ans.poll = some revents) :
    (server p listener).step ans ⟨t, .poll⟩ =
      (⟨report t revents, .scan 0⟩, [.poll (ready (report t revents))]) := by
  simp [server, step, result]

theorem step_scan {p : Program} {listener : Int} {ans : Answers} {t : Table} {i : Nat} (inside : i < t.fdCount) :
    (server p listener).step ans ⟨t, .scan i⟩ = p.visit listener ans i t := by
  simp [server, step, inside]

theorem step_scan_end {p : Program} {listener : Int} {ans : Answers} {t : Table} {i : Nat}
    (past : t.fdCount ≤ i) : (server p listener).step ans ⟨t, .scan i⟩ = (⟨t, .poll⟩, []) := by
  simp [server, step, Nat.not_lt.mpr past]

/-- Everything one step can do: a change of the phase alone, a call of `poll`, or an iteration. -/
inductive Moves (p : Program) (listener : Int) (ans : Answers) (s : State) : State → List Call → Prop where
  | quiet {phase : Phase} (waits : ∀ i, phase ≠ .scan i) (safe : phase = .crashed → s.phase = .crashed) :
      Moves p listener ans s ⟨s.table, phase⟩ []
  | polled {revents : Nat → BitVec 16} (waiting : s.phase = .poll) :
      Moves p listener ans s ⟨report s.table revents, .scan 0⟩ [.poll (ready (report s.table revents))]
  | visited {i : Nat} {entry : PollFd} {s' : State} {calls : List Call} (busy : s.phase = .scan i)
      (here : s.table.live[i]? = some entry) (effect : Effect p listener ans i s.table entry s' calls) :
      Moves p listener ans s s' calls

theorem step_moves (p : Program) {listener : Int} {ans : Answers} {s : State} (wf : WellFormed listener s.table)
    (result : s.phase = .scan 0 → -1 ≤ ans.accept) :
    ∃ s' calls, (server p listener).step ans s = (s', calls) ∧ Moves p listener ans s s' calls := by
  obtain ⟨t, phase⟩ := s
  cases phase with
  | poll =>
    cases answer : ans.poll with
    | none => exact ⟨_, _, step_poll_none answer, .quiet (by simp) (by simp)⟩
    | some revents => exact ⟨_, _, step_poll_some answer, .polled rfl⟩
  | scan i =>
    rcases Nat.lt_or_ge i t.fdCount with inside | outside
    · obtain ⟨entry, here, -, -⟩ := wf.entry inside
      have low (first : i = 0) : -1 ≤ ans.accept := result (congrArg Phase.scan first)
      exact ⟨_, _, step_scan inside, .visited rfl here (visit_effect p wf inside here low)⟩
    · exact ⟨_, _, step_scan_end outside, .quiet (by simp) (by simp)⟩
  | exited => exact ⟨_, _, rfl, .quiet (by simp) (by simp)⟩
  | crashed => exact ⟨_, _, rfl, .quiet (by simp) fun _ => rfl⟩

theorem step_past_start {p : Program} {listener : Int} {ans : Answers} {s : State}
    (wf : WellFormed listener s.table) (fresh : s.phase = .scan 0 → FreshFor s.table ans)
    (busy : s.scanning = true) : ((server p listener).step ans s).1.phase ≠ .scan 0 := by
  obtain ⟨s', calls, step, moves⟩ := step_moves p wf fun first => (fresh first).low
  rw [step]
  cases moves with
  | quiet waits safe => exact waits 0
  | polled waiting => simp [State.scanning, waiting] at busy
  | visited iterating here effect =>
    rcases effect.advances.1 with next | next <;> simp [next]

/-- The loop over `pfds` ends although its bound may grow while it runs. -/
theorem scan_ends {p : Program} {listener : Int} {s : State} (answers : Nat → Answers)
    (wf : WellFormed listener s.table) (fresh : s.phase = .scan 0 → FreshFor s.table (answers 0))
    (fuel : Nat) (enough : s.table.fdCount + 2 < fuel) :
    ((server p listener).runWhile State.scanning answers fuel 0 s).1.scanning = false := by
  have bound : s.rank < fuel := by
    unfold State.rank
    split <;> omega
  refine (server p listener).runWhile_ends State.rank answers
    (fun k s => WellFormed listener s.table ∧ (s.phase = .scan 0 → FreshFor s.table (answers k)))
    ?_ fuel 0 s ⟨wf, fresh⟩ bound
  intro k s both busy
  obtain ⟨wf, fresh⟩ := both
  obtain ⟨s', calls, step, moves⟩ := step_moves p wf fun first => (fresh first).low
  rw [step]
  cases moves with
  | @quiet phase waits safe =>
    have idle : State.scanning ⟨s.table, phase⟩ = false := by
      cases phase with
      | scan i => exact absurd rfl (waits i)
      | poll | exited | crashed => rfl
    refine ⟨⟨wf, fun first => absurd first (waits 0)⟩, fun again => ?_⟩
    rw [idle] at again
    cases again
  | polled waiting => simp [State.scanning, waiting] at busy
  | @visited i entry s' calls iterating here effect =>
    obtain ⟨t, phase⟩ := s
    subst iterating
    have new (first : i = 0) : FreshFor t (answers k) := fresh (congrArg Phase.scan first)
    obtain ⟨next, count⟩ := effect.advances
    refine ⟨⟨effect.wellFormed wf here new, ?_⟩, ?_⟩
    · rcases next with next | next <;> simp [next]
    · rcases next with next | next
      · intro _
        have inside : i < t.fdCount := by
          rw [← wf.length_live]
          exact (List.getElem?_eq_some_iff.mp here).1
        simp only [State.rank, next]
        cases i with
        | zero => simp at count ⊢; omega
        | succ i => simp at count ⊢; omega
      · simp [State.scanning, next]

/-! ### Reachable states -/

theorem openClients_append (past calls : List Call) :
    openClients (past ++ calls) = calls.foldl Call.track (openClients past) :=
  List.foldl_append

theorem replies_send (p : Program) {listener : Int} {ans : Answers} {i : Nat} {t : Table} {sender : Int}
    {call : Call} (member : call ∈ p.replies listener ans i t sender) :
    ∃ fd data result, call = .send fd data result := by
  cases p with
  | pollServer =>
    obtain ⟨j, -, sent⟩ := List.mem_flatMap.mp member
    split at sent
    · simp at sent
    · split at sent
      · exact ⟨_, _, _, List.mem_singleton.mp sent⟩
      · simp at sent
  | pollServer2 => exact ⟨_, _, _, List.mem_singleton.mp member⟩

theorem track_sends (calls : List Call) (clients : Finset Int)
    (sends : ∀ call ∈ calls, ∃ fd data result, call = Call.send fd data result) :
    calls.foldl Call.track clients = clients := by
  induction calls with
  | nil => rfl
  | cons call rest ih =>
    obtain ⟨fd, data, result, rfl⟩ := sends call (List.mem_cons_self ..)
    exact ih (fun other member => sends other (List.mem_cons_of_mem _ member))

/-- The representation invariant, relating the array to the calls made so far. -/
structure Representation (listener : Int) (past : List Call) (s : State) : Prop where
  wf : WellFormed listener s.table
  /-- no access was outside the allocation -/
  inBounds : s.phase ≠ .crashed
  /-- the array holds the listener and the open clients -/
  exactly : ∀ fd, fd ∈ s.table.fds ↔ fd = listener ∨ fd ∈ openClients past
  listenerKept : listener ∉ openClients past ∧ Call.close listener ∉ past

theorem Representation.freshFor {listener : Int} {past : List Call} {s : State} {ans : Answers}
    (rep : Representation listener past s) (fresh : AcceptFresh listener past s ans) : FreshFor s.table ans := by
  rcases fresh with failed | ⟨ok, notListener, notOpen⟩
  · exact Or.inl failed
  · exact Or.inr ⟨ok, fun member => ((rep.exactly _).mp member).elim notListener notOpen⟩

theorem report_live (t : Table) (revents : Nat → BitVec 16) :
    (report t revents).live = t.live.mapIdx fun k entry => { entry with revents := revents k } := by
  apply List.ext_getElem?
  intro k
  by_cases inside : k < t.fdCount
  · simp [live, report, inside, List.getElem?_mapIdx]
  · simp [live, report, inside]

theorem report_fds (t : Table) (revents : Nat → BitVec 16) : (report t revents).fds = t.fds := by
  apply List.ext_getElem?
  intro k
  simp only [fds, report_live, List.getElem?_map, List.getElem?_mapIdx, Option.map_map]
  rfl

theorem report_wf {listener : Int} {t : Table} (wf : WellFormed listener t) (revents : Nat → BitVec 16) :
    WellFormed listener (report t revents) where
  positive := wf.positive
  bounded := wf.bounded
  allocated := by simpa [report] using wf.allocated
  head := by rw [report_fds]; exact wf.head
  distinct := by rw [report_fds]; exact wf.distinct

theorem Representation.keep {listener : Int} {past calls : List Call} {s s' : State}
    (rep : Representation listener past s) (wf : WellFormed listener s'.table) (safe : s'.phase ≠ .crashed)
    (same : s'.table.fds = s.table.fds) (opened : calls.foldl Call.track (openClients past) = openClients past)
    (closed : Call.close listener ∉ calls) : Representation listener (past ++ calls) s' := by
  rw [← openClients_append] at opened
  have kept : Call.close listener ∉ past ++ calls := by simp [rep.listenerKept.2, closed]
  refine ⟨wf, safe, ?_, ?_⟩
  · rw [same, opened]
    exact rep.exactly
  · rw [opened]
    exact ⟨rep.listenerKept.1, kept⟩

theorem Representation.admit {listener : Int} {past : List Call} {t t' : Table} {i : Nat}
    (rep : Representation listener past ⟨t, .scan i⟩) (wf' : WellFormed listener t') {fd : Int} (ok : 0 ≤ fd)
    (notListener : fd ≠ listener) {events revents : BitVec 16} (grown : t'.live = t.live ++ [⟨fd, events, revents⟩]) :
    Representation listener (past ++ [.accept listener fd]) ⟨t', .scan (i + 1)⟩ := by
  have opened : openClients (past ++ [.accept listener fd]) = insert fd (openClients past) := by
    simp [openClients_append, Call.track, ok]
  refine ⟨wf', by simp, ?_, ?_⟩
  · intro other
    have old := rep.exactly other
    simp only [fds] at old
    simp only [fds, grown, List.map_append, List.mem_append, opened, Finset.mem_insert]
    simp only [List.map_cons, List.map_nil, List.mem_singleton]
    rw [old]
    tauto
  · rw [opened]
    have kept := rep.listenerKept
    simp [Ne.symm notListener, kept.1, kept.2]

theorem Representation.dismiss {listener : Int} {past : List Call} {t t' : Table} {i : Nat}
    (rep : Representation listener past ⟨t, .scan i⟩) (wf' : WellFormed listener t') {fd : Int}
    (got : Option (List UInt8)) (notListener : fd ≠ listener)
    (members : ∀ x, x ∈ t'.fds ↔ x ∈ t.fds ∧ x ≠ fd) :
    Representation listener (past ++ [.recv fd got, .close fd]) ⟨t', .scan (i + 1)⟩ := by
  have opened : openClients (past ++ [.recv fd got, .close fd]) = (openClients past).erase fd := by
    simp [openClients_append, Call.track]
  refine ⟨wf', by simp, ?_, ?_⟩
  · intro other
    have old := rep.exactly other
    rw [members, old, opened, Finset.mem_erase]
    constructor
    · tauto
    · rintro (same | ⟨different, stillOpen⟩)
      · exact ⟨Or.inl same, fun equal => notListener (equal ▸ same)⟩
      · exact ⟨Or.inr stillOpen, different⟩
  · rw [opened]
    have kept := rep.listenerKept
    simp [Ne.symm notListener, kept.1, kept.2]

theorem Representation.visit {p : Program} {listener : Int} {past calls : List Call} {ans : Answers} {i : Nat}
    {t : Table} {entry : PollFd} {s : State} (rep : Representation listener past ⟨t, .scan i⟩)
    (here : t.live[i]? = some entry) (fresh : i = 0 → AcceptFresh listener past ⟨t, .scan i⟩ ans)
    (effect : Effect p listener ans i t entry s calls) : Representation listener (past ++ calls) s := by
  have place : t.fds[i]? = some entry.fd := by simp [fds, here]
  have wf' := effect.wellFormed rep.wf here (fun first => rep.freshFor (fresh first))
  cases effect with
  | idle quiet => exact rep.keep wf' (by simp) rfl rfl List.not_mem_nil
  | accepted ready own ok sane count grown =>
    rcases fresh own with failed | ⟨-, notListener, -⟩
    · omega
    exact rep.admit wf' ok notListener grown
  | refused ready own failed =>
    apply rep.keep wf'
    · cases p <;> simp [Program.afterRefusal]
    · rfl
    · simp [Call.track, failed]
    · simp
  | left ready client gone sane count removed =>
    have other : entry.fd ≠ listener := fun same =>
      absurd ((rep.wf.fd_eq_listener_iff place).mp same) (by omega)
    exact rep.dismiss wf' ans.recv other (rep.wf.remove sane client place removed).2
  | data ready client stays =>
    apply rep.keep wf' (by simp) rfl
    · rw [List.foldl_cons]
      exact track_sends _ _ (fun _ member => replies_send p member)
    · intro member
      rcases List.mem_cons.mp member with first | sent
      · cases first
      · obtain ⟨fd, data, result, send⟩ := replies_send p sent
        cases send

theorem Representation.step {p : Program} {listener : Int} {past : List Call} {s : State} {ans : Answers}
    (rep : Representation listener past s) (fresh : s.phase = .scan 0 → AcceptFresh listener past s ans) :
    Representation listener (past ++ ((server p listener).step ans s).2) ((server p listener).step ans s).1 := by
  obtain ⟨s', calls, step, moves⟩ := step_moves p rep.wf fun first => (rep.freshFor (fresh first)).low
  rw [step]
  cases moves with
  | quiet waits safe => exact rep.keep rep.wf (fun crashed => rep.inBounds (safe crashed)) rfl rfl List.not_mem_nil
  | @polled revents waiting =>
    exact rep.keep (report_wf rep.wf revents) (by simp) (report_fds s.table revents) rfl (by simp)
  | visited busy here effect =>
    obtain ⟨t, phase⟩ := s
    subst busy
    exact rep.visit here (fun first => fresh (congrArg Phase.scan first)) effect

theorem start_live (listener : Int) (junk : Nat → PollFd) :
    (start listener junk).table.live = [⟨listener, POLLIN, (junk 0).revents⟩] := by
  simp [start, live, malloc, List.range_succ_eq_map]

theorem start_representation (listener : Int) (junk : Nat → PollFd) :
    Representation listener [] (start listener junk) where
  wf := {
    positive := by simp [start]
    bounded := by simp [start]
    allocated := by simp [start]
    head := by simp [fds, start_live]
    distinct := by simp [fds, start_live] }
  inBounds := by simp [start]
  exactly := by simp [fds, start_live, openClients]
  listenerKept := by simp [openClients]

theorem reachable_representation (p : Program) (listener : Int) (junk : Nat → PollFd) (inputs : List Answers)
    (fresh : (server p listener).Along (AcceptFresh listener) inputs [] (start listener junk)) :
    Representation listener ((server p listener).run inputs (start listener junk)).2
      ((server p listener).run inputs (start listener junk)).1 := by
  have kept := (server p listener).invariant (Representation listener)
    (fun past s ans rep allowed => rep.step (p := p) (fun _ => allowed)) (start_representation listener junk) fresh
  simpa using kept

/-- In every reachable state of either program the array represents exactly the listener and
the open clients, no access was outside the allocation, and the loop over the array ends. -/
theorem pfds_representation (p : Program) (listener : Int) (junk : Nat → PollFd) (inputs : List Answers)
    (fresh : (server p listener).Along (AcceptFresh listener) inputs [] (start listener junk)) :
    let reached := (server p listener).run inputs (start listener junk)
    Representation listener reached.2 reached.1 ∧
      reached.1.table.pfds[0]?.map PollFd.fd = some listener ∧
      ∀ answers : Nat → Answers, AcceptFresh listener reached.2 reached.1 (answers 0) →
        ((server p listener).runWhile State.scanning answers (reached.1.table.fdCount + 3) 0
          reached.1).1.scanning = false := by
  intro reached
  have rep : Representation listener reached.2 reached.1 := reachable_representation p listener junk inputs fresh
  refine ⟨rep, ?_, ?_⟩
  · have first := rep.wf.head
    rw [fds, List.getElem?_map, getElem?_live rep.wf.positive] at first
    exact first
  · intro answers allowed
    exact scan_ends answers rep.wf (fun _ => rep.freshFor allowed) _ (by omega)

def sampleAnswers (newfd : Int) : Answers where
  poll := some fun k => if k < 2 then POLLIN else 0
  accept := newfd
  recv := some []
  send := fun _ => -1
  junk := fun _ => ⟨0, 0, 0⟩

theorem pfds_representation_two_steps :
    let reached := (server .pollServer2 3).run [sampleAnswers 4, sampleAnswers 4] (start 3 fun _ => ⟨0, 0, 0⟩)
    reached.1.table.fds = [3, 4] ∧ Representation 3 reached.2 reached.1 :=
  ⟨by decide, (pfds_representation .pollServer2 3 (fun _ => ⟨0, 0, 0⟩) [sampleAnswers 4, sampleAnswers 4]
    ⟨Or.inr (by decide), Or.inr (by decide), trivial⟩).1⟩

end SocketPrograms.Poll
