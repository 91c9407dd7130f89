import SocketPrograms.Poll.Capacity
import SocketPrograms.Poll.Echo
import SocketPrograms.Poll.Fairness

/-! The poll servers with the bytes that wait at their sockets. A pass may leave a client out that
`poll` has reported, but the client sinks in the array then. The sockets are blocking ones: what
waits for a client is soon received unless a call for another one never returns. -/

namespace SocketPrograms.Poll
open Lib Table

/-- The server at the start of its turn, whether it hangs in it, and at each socket the bytes that
have arrived and were not received. -/
structure Sockets where
  state : State
  hung : Bool
  inbox : Int → List UInt8

/-- What arrives in a turn of `while (1)`, before `poll` looks at the sockets and behind that, the
answers to the calls of the turn, and which of the calls never returns. -/
structure Tick where
  before : Int → List UInt8
  meanwhile : Int → List UInt8
  answers : Nat → Answers
  hangs : Option Nat

def Tick.arrived (tick : Tick) (fd : Int) : List UInt8 := tick.before fd ++ tick.meanwhile fd

def Tick.returned (tick : Tick) (calls : List Call) : List Call :=
  match tick.hangs with
  | none => calls
  | some k => calls.take k

def bytesFrom (fd : Int) (calls : List Call) : List UInt8 :=
  calls.flatMap fun
    | .recv source (some bytes) => if source = fd then bytes else []
    | _ => []

/-- A turn of `while (1)`, or as much of it as comes before the call that never returns. With a
socket that is closed the bytes that wait there are gone. -/
def advance (p : Program) (listener : Int) (tick : Tick) (s : Sockets) : Sockets × List Call :=
  let turn := pass p listener tick.answers s.state
  let calls := if s.hung then [] else tick.returned turn.2
  let hung := s.hung || decide (calls.length < turn.2.length)
  let left (fd : Int) := (s.inbox fd ++ tick.arrived fd).drop (bytesFrom fd calls).length
  (⟨if hung then s.state else turn.1, hung, fun fd => if .close fd ∈ calls then [] else left fd⟩, calls)

def service (p : Program) (listener : Int) : Machine Tick Sockets Call := ⟨advance p listener⟩

@[simp] theorem service_step (p : Program) (listener : Int) :
    (service p listener).step = advance p listener := rfl

def opening (listener : Int) (junk : Nat → PollFd) : Sockets := ⟨start listener junk, false, fun _ => []⟩

def Reports (listener : Int) (s : Sockets) (tick : Tick) (ready : List Int) : Prop :=
  ∀ fd ∈ s.state.table.fds, fd ≠ listener → s.inbox fd ++ tick.before fd ≠ [] → fd ∈ ready

instance (listener : Int) (s : Sockets) (tick : Tick) (ready : List Int) : Decidable (Reports listener s tick ready) :=
  inferInstanceAs (Decidable (∀ fd ∈ s.state.table.fds, _))

/-- `poll` reports where bytes wait, and `recv` returns the first of the bytes that have arrived. -/
def Call.Honest (listener : Int) (s : Sockets) (tick : Tick) : Call → Prop
  | .poll ready => Reports listener s tick ready
  | .recv fd (some bytes) => bytes <+: s.inbox fd ++ tick.arrived fd
  | _ => True

instance (listener : Int) (s : Sockets) (tick : Tick) :
    (call : Call) → Decidable (call.Honest listener s tick)
  | .poll ready => inferInstanceAs (Decidable (Reports listener s tick ready))
  | .recv fd (some bytes) => inferInstanceAs (Decidable (bytes <+: s.inbox fd ++ tick.arrived fd))
  | .recv _ none | .accept _ _ | .send _ _ _ | .close _ => isTrue trivial

def Honest (p : Program) (listener : Int) (past : List Call) (s : Sockets) (tick : Tick) : Prop :=
  (s.hung = false → AcceptFresh listener past s.state (tick.answers 0)) ∧
    ∀ call ∈ (advance p listener tick s).2, call.Honest listener s tick

instance (p : Program) (listener : Int) (past : List Call) (s : Sockets) (tick : Tick) :
    Decidable (Honest p listener past s tick) := inferInstanceAs (Decidable (_ ∧ _))

def arrivals (fd : Int) (ticks : List Tick) : List UInt8 := ticks.flatMap fun tick => tick.arrived fd

@[simp] theorem bytesFrom_append (fd : Int) (first second : List Call) :
    bytesFrom fd (first ++ second) = bytesFrom fd first ++ bytesFrom fd second := List.flatMap_append

theorem bytesFrom_pos {fd : Int} {bytes : List UInt8} {calls : List Call} (member : .recv fd (some bytes) ∈ calls)
    (solid : bytes ≠ []) : 0 < (bytesFrom fd calls).length := by
  apply List.length_pos_of_ne_nil
  intro nothing
  have none := List.flatMap_eq_nil_iff.mp nothing _ member
  exact solid (by simpa using none)

theorem bytesFrom_once {calls : List Call} (once : (recvFds calls).Nodup) (fd : Int) :
    bytesFrom fd calls = [] ∨ .recv fd (some (bytesFrom fd calls)) ∈ calls := by
  induction calls with
  | nil => exact Or.inl rfl
  | cons call rest ih =>
    have split : bytesFrom fd (call :: rest) = bytesFrom fd [call] ++ bytesFrom fd rest :=
      bytesFrom_append fd [call] rest
    have recvs : recvFds (call :: rest) = recvFds [call] ++ recvFds rest := recvFds_append [call] rest
    rw [recvs] at once
    have later := (ih (List.nodup_append.mp once).2.1).imp_right (List.mem_cons_of_mem call)
    cases call with
    | recv source got =>
      by_cases own : source = fd
      · subst own
        have absent : source ∉ recvFds rest := (List.nodup_cons.mp once).1
        have none : bytesFrom source rest = [] := by
          apply List.flatMap_eq_nil_iff.mpr
          intro call member
          cases call with
          | recv other result =>
            have differs : other ≠ source := fun same =>
              absent (List.mem_filterMap.mpr ⟨_, member, congrArg some same⟩)
            cases result with
            | none => rfl
            | some bytes => exact if_neg differs
          | poll | accept | send | close => rfl
        rw [split, none, List.append_nil]
        cases got with
        | none => exact Or.inl rfl
        | some bytes =>
          have whole : bytesFrom source [.recv source (some bytes)] = bytes := by simp [bytesFrom]
          rw [whole]
          exact Or.inr (List.mem_cons_self ..)
      · have nothing : bytesFrom fd [.recv source got] = [] := by cases got <;> simp [bytesFrom, own]
        rw [split, nothing]
        exact later
    | poll | accept | send | close => exact later

section pass
variable {p : Program} {listener : Int} {answers : Nat → Answers} {s : State}

/-- A fact about the calls of the loop over `pfds` that a call of `poll` does not touch is one about
those of the turn. -/
theorem pass_calls (wf : WellFormed listener s.table) (fresh : FreshFor s.table (answers 0)) (good : List Call → Prop)
    (idle : good []) (polled : ∀ ready calls, good calls → good (.poll ready :: calls))
    (scanned : ∀ t, WellFormed listener t → FreshFor t (answers 0) → good (scanLoop p listener answers t).2) :
    good (pass p listener answers s).2 := by
  obtain ⟨t, phase⟩ := s
  by_cases polling : phase = .poll
  · subst polling
    cases result : (answers 0).poll with
    | none =>
      rw [pass_poll_none result]
      exact idle
    | some revents =>
      rw [pass_poll_some result]
      have fresh' : FreshFor (report t revents) (answers 0) := by simpa only [FreshFor, report_fds] using fresh
      exact polled _ _ (scanned _ (report_wf wf revents) fresh')
  · rw [pass_idle p answers polling]
    exact idle

theorem pass_recv_once (wf : WellFormed listener s.table) (fresh : FreshFor s.table (answers 0)) :
    (recvFds (pass p listener answers s).2).Nodup := by
  apply pass_calls wf fresh fun calls => (recvFds calls).Nodup
  · exact List.nodup_nil
  · intro ready calls once
    exact once
  · intro t wf fresh
    rw [(scanLoop_calls p answers wf fresh).1]
    split_ifs
    · exact List.nodup_nil
    · exact sweptFds_nodup answers 1 _ (clients_nodup wf fresh)

theorem pass_recv_data (wf : WellFormed listener s.table) (fresh : FreshFor s.table (answers 0)) {fd : Int}
    (kept : .close fd ∉ (pass p listener answers s).2) (got : fd ∈ recvFds (pass p listener answers s).2) :
    ∃ bytes, .recv fd (some bytes) ∈ (pass p listener answers s).2 ∧ bytes ≠ [] := by
  revert kept got
  apply pass_calls wf fresh fun calls => .close fd ∉ calls → fd ∈ recvFds calls →
    ∃ bytes, .recv fd (some bytes) ∈ calls ∧ bytes ≠ []
  · simp [recvFds]
  · intro ready calls good kept got
    obtain ⟨bytes, member, solid⟩ := good (fun member => kept (List.mem_cons_of_mem _ member)) got
    exact ⟨bytes, List.mem_cons_of_mem _ member, solid⟩
  · intro t wf fresh
    apply scanLoop_rule p answers wf fresh fun past _ => .close fd ∉ past → fd ∈ recvFds past →
      ∃ bytes, .recv fd (some bytes) ∈ past ∧ bytes ≠ []
    · simp [recvFds]
    · exact fun past i t wf outside inv => inv
    · intro past i ans t entry s calls wf here inv effect kept got
      rw [List.mem_append, not_or] at kept
      rw [recvFds_append, List.mem_append] at got
      rcases got with old | new
      · obtain ⟨bytes, member, solid⟩ := inv kept.1 old
        exact ⟨bytes, List.mem_append_left _ member, solid⟩
      · cases effect with
        | idle | accepted | refused => simp [recvFds] at new
        | left ready client gone =>
          have own : fd = entry.fd := by simpa [recvFds] using new
          subst own
          simp at kept
        | data ready client stays =>
          obtain ⟨result, size, positive⟩ := Answers.recv_of_data stays
          have none := (recvFds_replies p listener ans i t entry.fd).1
          have own : fd = entry.fd := by
            have split : recvFds (.recv entry.fd ans.recv :: p.replies listener ans i t entry.fd) = [entry.fd] := by
              rw [← List.singleton_append, recvFds_append, none]
              rfl
            rw [split] at new
            exact List.mem_singleton.mp new
          refine ⟨ans.data, ?_, List.ne_nil_of_length_pos (by omega)⟩
          rw [own, ← result]
          exact List.mem_append_right _ (List.mem_cons_self ..)

theorem pass_polls (running : (pass p listener answers s).1.phase = .poll) :
    ∃ ready, .poll ready ∈ (pass p listener answers s).2 := by
  obtain ⟨t, phase⟩ := s
  by_cases polling : phase = .poll
  · subst polling
    cases result : (answers 0).poll with
    | none =>
      rw [pass_poll_none result] at running
      cases running
    | some revents =>
      rw [pass_poll_some result]
      exact ⟨_, List.mem_cons_self ..⟩
  · rw [pass_idle p answers polling] at running
    exact absurd running polling

end pass

/-! ### One turn -/

section turn
variable {p : Program} {listener : Int} {past : List Call} {s : Sockets} {tick : Tick} {fd : Int}

theorem Tick.returned_sublist (tick : Tick) (calls : List Call) : (tick.returned calls).Sublist calls := by
  unfold Tick.returned
  split
  · exact List.Sublist.refl calls
  · exact List.take_sublist ..

theorem advance_hung (hung : s.hung = true) :
    (advance p listener tick s).2 = [] ∧ (advance p listener tick s).1.hung = true := by
  simp [advance, hung]

theorem advance_calls (running : s.hung = false) :
    (advance p listener tick s).2 = tick.returned (pass p listener tick.answers s.state).2 := by
  simp [advance, running]

theorem advance_ends (ends : (advance p listener tick s).1.hung = false) :
    s.hung = false ∧ (advance p listener tick s).2 = (pass p listener tick.answers s.state).2 ∧
      (advance p listener tick s).1.state = (pass p listener tick.answers s.state).1 := by
  have running : s.hung = false := by
    by_contra hung
    rw [(advance_hung (Bool.eq_true_of_not_eq_false hung)).2] at ends
    cases ends
  have short : (pass p listener tick.answers s.state).2.length ≤
      (tick.returned (pass p listener tick.answers s.state).2).length := by
    simpa [advance, running] using ends
  have all := (tick.returned_sublist (pass p listener tick.answers s.state).2).eq_of_length_le short
  refine ⟨running, (advance_calls running).trans all, ?_⟩
  simp [advance, running, all]

theorem Honest.rep (honest : Honest p listener past s tick)
    (rep : s.hung = false → Representation listener past s.state)
    (ends : (advance p listener tick s).1.hung = false) :
    Representation listener (past ++ (advance p listener tick s).2) (advance p listener tick s).1.state := by
  obtain ⟨running, calls, state⟩ := advance_ends ends
  rw [calls, state]
  exact (rep running).pass (honest.1 running)

theorem advance_account (rep : s.hung = false → Representation listener past s.state)
    (honest : Honest p listener past s tick) (kept : .close fd ∉ (advance p listener tick s).2) :
    bytesFrom fd (advance p listener tick s).2 ++ (advance p listener tick s).1.inbox fd =
      s.inbox fd ++ tick.arrived fd := by
  have inbox : (advance p listener tick s).1.inbox fd =
      (s.inbox fd ++ tick.arrived fd).drop (bytesFrom fd (advance p listener tick s).2).length := if_neg kept
  have once : (recvFds (advance p listener tick s).2).Nodup := by
    cases running : s.hung with
    | true =>
      rw [(advance_hung running).1]
      exact List.nodup_nil
    | false =>
      rw [advance_calls running]
      have all := pass_recv_once (p := p) (rep running).wf ((rep running).freshFor (honest.1 running))
      exact all.sublist ((tick.returned_sublist _).filterMap _)
  have front : bytesFrom fd (advance p listener tick s).2 <+: s.inbox fd ++ tick.arrived fd := by
    rcases bytesFrom_once once fd with nothing | member
    · rw [nothing]
      exact List.nil_prefix
    · exact honest.2 _ member
  rw [inbox]
  calc bytesFrom fd (advance p listener tick s).2 ++
        (s.inbox fd ++ tick.arrived fd).drop (bytesFrom fd (advance p listener tick s).2).length
      = (s.inbox fd ++ tick.arrived fd).take (bytesFrom fd (advance p listener tick s).2).length ++
        (s.inbox fd ++ tick.arrived fd).drop (bytesFrom fd (advance p listener tick s).2).length := by
        rw [← List.prefix_iff_eq_take.mp front]
    _ = s.inbox fd ++ tick.arrived fd := List.take_append_drop ..

theorem advance_place (rep : Representation listener past s.state) (honest : Honest p listener past s tick) {k : Nat}
    (place : s.state.table.fds[k]? = some fd) (client : 0 < k) (kept : .close fd ∉ (advance p listener tick s).2)
    (ends : (advance p listener tick s).1.hung = false)
    (running : (advance p listener tick s).1.state.phase = .poll) :
    ∃ k', (advance p listener tick s).1.state.table.fds[k']? = some fd ∧ 0 < k' ∧ k' ≤ k ∧
      (s.inbox fd ≠ [] → k' < k ∨ 0 < (bytesFrom fd (advance p listener tick s).2).length) := by
  obtain ⟨quick, calls, state⟩ := advance_ends ends
  have heard : ∀ call ∈ (pass p listener tick.answers s.state).2, call.Honest listener s tick := calls ▸ honest.2
  rw [calls] at kept ⊢
  rw [state] at running ⊢
  have fresh := rep.freshFor (honest.1 quick)
  obtain ⟨k', moved, above, sinks⟩ := pass_place p rep.wf fresh place client kept running
  refine ⟨k', moved, above, by omega, fun waits => ?_⟩
  by_cases got : fd ∈ recvFds (pass p listener tick.answers s.state).2
  · obtain ⟨bytes, member, solid⟩ := pass_recv_data rep.wf fresh kept got
    exact Or.inr (bytesFrom_pos member solid)
  · have notListener : fd ≠ listener := fun same => by
      have first := (rep.wf.fd_eq_listener_iff place).mp same
      omega
    obtain ⟨ready, polled⟩ := pass_polls running
    have reported : fd ∈ ready :=
      heard _ polled fd (List.mem_of_getElem? place) notListener (List.append_ne_nil_of_left_ne_nil waits _)
    have missed : passedOver fd (pass p listener tick.answers s.state).2 = true := by
      have known : fd ∈ polledFds (pass p listener tick.answers s.state).2 :=
        List.mem_flatMap.mpr ⟨_, polled, reported⟩
      simp [passedOver, known, got]
    rw [if_pos missed] at sinks
    exact Or.inl (by omega)

end turn

/-! ### Whole runs -/

theorem service_returns (p : Program) (listener : Int) (ticks : List Tick) {s : Sockets}
    (ends : ((service p listener).run ticks s).1.hung = false) : s.hung = false := by
  induction ticks generalizing s with
  | nil => exact ends
  | cons tick rest ih => exact (advance_ends (ih ends)).1

theorem service_polls (p : Program) (listener : Int) (ticks : List Tick) {s : Sockets}
    (running : ((service p listener).run ticks s).1.state.phase = .poll) : s.state.phase = .poll := by
  induction ticks generalizing s with
  | nil => exact running
  | cons tick rest ih =>
    have now : (if _ then s.state else (pass p listener tick.answers s.state).1).phase = .poll := ih running
    by_contra ended
    rw [pass_idle p tick.answers ended, ite_self] at now
    exact ended now

theorem service_account (p : Program) {listener : Int} (ticks : List Tick) {past : List Call} {s : Sockets}
    (rep : s.hung = false → Representation listener past s.state)
    (honest : (service p listener).Along (Honest p listener) ticks past s) {fd : Int}
    (kept : .close fd ∉ ((service p listener).run ticks s).2) :
    bytesFrom fd ((service p listener).run ticks s).2 ++ ((service p listener).run ticks s).1.inbox fd =
      s.inbox fd ++ arrivals fd ticks := by
  induction ticks generalizing past s with
  | nil => simp [bytesFrom, arrivals]
  | cons tick rest ih =>
    rw [Machine.run_cons, service_step] at kept ⊢
    rw [List.mem_append, not_or] at kept
    have whole := ih (honest.1.rep rep) honest.2 kept.2
    have turn := advance_account rep honest.1 kept.1
    simp only [bytesFrom_append, List.append_assoc, whole]
    rw [← List.append_assoc, turn, List.append_assoc]
    rfl

/-- The rest of a run; the induction is on the turns, of which each one brings a byte of those
wanted or lets the client sink. -/
theorem service_receives (p : Program) {listener : Int} (ticks : List Tick) {past : List Call} {s : Sockets}
    (rep : Representation listener past s.state) (honest : (service p listener).Along (Honest p listener) ticks past s)
    {k : Nat} {fd : Int} (place : s.state.table.fds[k]? = some fd) (client : 0 < k)
    (kept : .close fd ∉ ((service p listener).run ticks s).2)
    (ends : ((service p listener).run ticks s).1.hung = false)
    (running : ((service p listener).run ticks s).1.state.phase = .poll) (wanted : Nat)
    (available : wanted ≤ (s.inbox fd).length) (enough : wanted + k ≤ ticks.length + 1) :
    wanted ≤ (bytesFrom fd ((service p listener).run ticks s).2).length := by
  induction ticks generalizing past s k wanted with
  | nil =>
    simp only [List.length_nil] at enough
    omega
  | cons tick rest ih =>
    rw [Machine.run_cons, service_step] at kept ends running ⊢
    rw [List.mem_append, not_or] at kept
    have quick := service_returns p listener rest ends
    have now := service_polls p listener rest running
    have account := congrArg List.length (advance_account (fun _ => rep) honest.1 kept.1)
    obtain ⟨k', moved, above, le, active⟩ := advance_place rep honest.1 place client kept.1 quick now
    rw [bytesFrom_append, List.length_append]
    rcases Nat.eq_zero_or_pos wanted with rfl | some_wanted
    · exact Nat.zero_le _
    · have waits : s.inbox fd ≠ [] := List.ne_nil_of_length_pos (by omega)
      simp only [List.length_append, List.length_cons] at account enough
      have later := ih (honest.1.rep (fun _ => rep) quick) honest.2 moved above kept.2 ends running
        (wanted - (bytesFrom fd (advance p listener tick s).2).length)
        (by omega)
        (by rcases active waits with sunk | brought <;> omega)
      omega

/-- No byte of an open connection is lost or reordered, also while a call hangs. As long as every
call returns, what waits at a client's socket has been received after as many further turns as it
has bytes and the client has others before it. -/
theorem none_starves (p : Program) (listener : Int) (junk : Nat → PollFd) (earlier later : List Tick)
    (honest : (service p listener).Along (Honest p listener) (earlier ++ later) [] (opening listener junk)) (k : Nat)
    (fd : Int) :
    let s := ((service p listener).run earlier (opening listener junk)).1
    let after := (service p listener).run later s
    s.state.table.fds[k]? = some fd → fd ≠ listener → Call.close fd ∉ after.2 → after.1.state.phase = .poll →
      bytesFrom fd after.2 ++ after.1.inbox fd = s.inbox fd ++ arrivals fd later ∧
        (after.1.hung = false → (s.inbox fd).length + k ≤ later.length + 1 → s.inbox fd <+: bytesFrom fd after.2) := by
  intro s after place notListener kept running
  obtain ⟨reached, onward⟩ := ((service p listener).along_append _ earlier later [] (opening listener junk)).mp honest
  have rep := (service p listener).invariant
    (fun past s => s.hung = false → Representation listener past s.state)
    (fun _ _ _ rep honest => honest.rep rep) (fun _ => start_representation listener junk) reached
  have whole := service_account p later rep onward kept
  refine ⟨whole, fun ends enough => ?_⟩
  have quick := service_returns p listener later ends
  have client : 0 < k := Nat.pos_of_ne_zero fun first =>
    notListener (((rep quick).wf.fd_eq_listener_iff place).mpr first)
  have front : bytesFrom fd after.2 <+: s.inbox fd ++ arrivals fd later := ⟨_, whole⟩
  have soon := service_receives p later (rep quick) onward place client kept ends running _ le_rfl enough
  exact List.prefix_of_prefix_length_le (List.prefix_append _ _) front soon

def awaiting (bytes : List UInt8) (answers : Nat → Answers) : Tick :=
  ⟨fun _ => [], fun fd => if fd = 5 then bytes else [], answers, none⟩

def unhurried : List Tick :=
  [awaiting [] (reporting [1, 2] (-1)), awaiting [67] fun i => { reporting [1] (-1) i with recv := some [65] },
    awaiting [] fun i => { reporting [1] (-1) i with recv := some [66] }]

/-- Clients 4 and 5 join and two bytes wait for the server. In the first turn after that client 5 is
passed over. -/
theorem none_starves_two_bytes :
    let s := ((service .pollServer2 3).run [awaiting [] (reporting [0] 4), awaiting [65, 66] (reporting [0] 5)]
      (opening 3 fun _ => ⟨0, 0, 0⟩)).1
    s.inbox 5 = [65, 66] ∧ passedOver 5 (pass .pollServer2 3 (reporting [1, 2] (-1)) s.state).2 = true ∧
      [65, 66] <+: bytesFrom 5 ((service .pollServer2 3).run unhurried s).2 :=
  ⟨by decide +kernel, by decide +kernel,
    (none_starves .pollServer2 3 (fun _ => ⟨0, 0, 0⟩)
      [awaiting [] (reporting [0] 4), awaiting [65, 66] (reporting [0] 5)] unhurried (by decide +kernel) 2 5
      (by decide +kernel) (by decide +kernel) (by decide +kernel) (by decide +kernel)).2 (by decide +kernel)
      (by decide +kernel)⟩

end SocketPrograms.Poll
