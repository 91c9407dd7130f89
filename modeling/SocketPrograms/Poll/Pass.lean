import SocketPrograms.Poll.Invariant

/-! One execution of the loop over `pfds`, from the state that `poll` leaves. The loop is a
sweep in the sense of `Lib.Sweep`: a client that hangs up has its place taken by the last
entry, which the sweep then passes over. -/

namespace SocketPrograms.Poll
open Lib Sweep Table

def recvFds (calls : List Call) : List Int :=
  calls.filterMap fun
    | .recv fd _ => some fd
    | _ => none

def acceptFds (calls : List Call) : List Int :=
  calls.filterMap fun
    | .accept listener _ => some listener
    | _ => none

@[simp] theorem recvFds_append (first second : List Call) :
    recvFds (first ++ second) = recvFds first ++ recvFds second := List.filterMap_append

@[simp] theorem acceptFds_append (first second : List Call) :
    acceptFds (first ++ second) = acceptFds first ++ acceptFds second := List.filterMap_append

def gone (answers : Nat → Answers) (entry : PollFd × Nat) : Bool :=
  entry.1.readable && (answers entry.2).hangsUp

/-- The readable descriptors that a sweep over these entries, the first at index `i`, visits. -/
def sweptFds (answers : Nat → Answers) (i : Nat) (entries : List PollFd) : List Int :=
  ((sweep (gone answers) (entries.zipIdx i)).filter fun entry => entry.1.readable).map fun entry => entry.1.fd

@[simp] theorem sweptFds_nil (answers : Nat → Answers) (i : Nat) : sweptFds answers i [] = [] := by
  simp [sweptFds]

theorem zipIdx_dropLast {α : Type*} (xs : List α) (i : Nat) :
    (xs.zipIdx i).dropLast = xs.dropLast.zipIdx i := by
  rcases List.eq_nil_or_concat' xs with rfl | ⟨front, last, rfl⟩
  · rfl
  · simp [List.zipIdx_append]

theorem zipIdx_take {α : Type*} (xs : List α) (i j : Nat) :
    (xs.zipIdx i).take j = (xs.take j).zipIdx i := by
  induction xs generalizing i j with
  | nil => simp
  | cons x rest ih => cases j <;> simp [ih]

theorem sweptFds_cons (answers : Nat → Answers) (i : Nat) (entry : PollFd) (ahead : List PollFd) :
    sweptFds answers i (entry :: ahead) =
      (if entry.readable then [entry.fd] else []) ++
        sweptFds answers (i + 1) (if gone answers (entry, i) then ahead.dropLast else ahead) := by
  have push : (if gone answers (entry, i) then (ahead.zipIdx (i + 1)).dropLast else ahead.zipIdx (i + 1)) =
      (if gone answers (entry, i) then ahead.dropLast else ahead).zipIdx (i + 1) := by
    split <;> simp [zipIdx_dropLast]
  simp only [sweptFds, List.zipIdx_cons, sweep_cons, push, List.filter_cons]
  split <;> simp

theorem recvFds_replies (p : Program) (listener : Int) (ans : Answers) (i : Nat) (t : Table) (sender : Int) :
    recvFds (p.replies listener ans i t sender) = [] ∧ acceptFds (p.replies listener ans i t sender) = [] ∧
      ∀ ready, Call.poll ready ∉ p.replies listener ans i t sender := by
  refine ⟨?_, ?_, ?_⟩
  · apply List.filterMap_eq_nil_iff.mpr
    intro call member
    obtain ⟨fd, data, result, rfl⟩ := replies_send p member
    rfl
  · apply List.filterMap_eq_nil_iff.mpr
    intro call member
    obtain ⟨fd, data, result, rfl⟩ := replies_send p member
    rfl
  · intro ready member
    obtain ⟨fd, data, result, same⟩ := replies_send p member
    cases same

theorem Effect.at_client {p : Program} {listener : Int} {answers : Nat → Answers} {i : Nat} {t : Table}
    {entry : PollFd} {s : State} {calls : List Call} (effect : Effect p listener (answers i) i t entry s calls)
    (wf : WellFormed listener t) (here : t.live[i]? = some entry) (client : 0 < i) :
    s.phase = .scan (i + 1) ∧ WellFormed listener s.table ∧ s.table.fdCount ≤ t.fdCount ∧
      recvFds calls = (if entry.readable then [entry.fd] else []) ∧ acceptFds calls = [] ∧
      (∀ ready, Call.poll ready ∉ calls) ∧
      s.table.live.drop (i + 1) =
        if gone answers (entry, i) then (t.live.drop (i + 1)).dropLast else t.live.drop (i + 1) := by
  have bound : i < t.live.length := (List.getElem?_eq_some_iff.mp here).1
  have wf' := effect.wellFormed wf here (by omega)
  cases effect with
  | idle quiet => simp [recvFds, acceptFds, quiet, gone, wf]
  | accepted ready own => omega
  | refused ready own => omega
  | left ready _ leaves sane count removed =>
    refine ⟨rfl, wf', by simp; omega, ?_, ?_, by simp, ?_⟩
    · simp [recvFds, ready]
    · simp [acceptFds]
    · simp [gone, ready, leaves, removed, drop_succ_swapRemove, bound]
  | data ready _ stays =>
    obtain ⟨noRecv, noAccept, noPoll⟩ := recvFds_replies p listener (answers i) i t entry.fd
    refine ⟨rfl, wf, le_rfl, ?_, ?_, by simp [noPoll], by simp [gone, stays]⟩
    · simpa [recvFds, ready] using noRecv
    · simpa [acceptFds] using noAccept

theorem scan_clients (p : Program) {listener : Int} (answers : Nat → Answers) (fuel i : Nat) {t : Table}
    (wf : WellFormed listener t) (client : 0 < i) (enough : t.fdCount + 1 < fuel + i) :
    let swept := (server p listener).runWhile State.scanning answers fuel i ⟨t, .scan i⟩
    recvFds swept.2 = sweptFds answers i (t.live.drop i) ∧ acceptFds swept.2 = [] ∧
      ∀ ready, Call.poll ready ∉ swept.2 := by
  induction fuel generalizing i t with
  | zero =>
    have done : t.live.drop i = [] := List.drop_eq_nil_of_le (by rw [wf.length_live]; omega)
    simp [Machine.runWhile, done, recvFds, acceptFds]
  | succ fuel ih =>
    rw [Machine.runWhile_busy _ (by rfl)]
    rcases Nat.lt_or_ge i t.fdCount with inside | outside
    · obtain ⟨entry, here, -, -⟩ := wf.entry inside
      have effect : Effect p listener (answers i) i t entry _ _ := visit_effect p wf inside here (by omega)
      obtain ⟨next, wf', count, recvs, accepts, polls, ahead⟩ := effect.at_client wf here client
      have now : t.live.drop i = entry :: t.live.drop (i + 1) := by
        rw [List.drop_eq_getElem?_toList_append, here]
        rfl
      have same : (p.visit listener (answers i) i t).1 =
          ⟨(p.visit listener (answers i) i t).1.table, .scan (i + 1)⟩ := by
        rw [← next]
      have later := ih (i + 1) wf' (by omega) (by omega)
      rw [← same] at later
      simp only [step_scan inside, recvFds_append, acceptFds_append]
      rw [later.1, later.2.1, recvs, accepts, now, sweptFds_cons, ahead]
      refine ⟨rfl, rfl, ?_⟩
      intro ready member
      rcases List.mem_append.mp member with first | rest
      · exact polls ready first
      · exact later.2.2 ready rest
    · have done : t.live.drop i = [] := List.drop_eq_nil_of_le (by rw [wf.length_live]; omega)
      rw [step_scan_end outside, Machine.runWhile_idle _ (by rfl)]
      simp [done, recvFds, acceptFds]

/-! ### The whole loop -/

def Joins (answers : Nat → Answers) (t : Table) : Prop := t.marked 0 = true ∧ 0 ≤ (answers 0).accept

instance (answers : Nat → Answers) (t : Table) : Decidable (Joins answers t) :=
  inferInstanceAs (Decidable (_ ∧ _))

/-- `accept` fails in a program that then ends the process. -/
def CutShort (p : Program) (answers : Nat → Answers) (t : Table) : Prop :=
  p = .pollServer2 ∧ t.marked 0 = true ∧ (answers 0).accept < 0

instance (p : Program) (answers : Nat → Answers) (t : Table) : Decidable (CutShort p answers t) :=
  inferInstanceAs (Decidable (_ ∧ _ ∧ _))

def clients (answers : Nat → Answers) (t : Table) : List PollFd :=
  t.live.drop 1 ++
    if Joins answers t then [⟨(answers 0).accept, POLLIN, t.staleRevents (answers 0).junk⟩] else []

theorem Effect.at_listener {p : Program} {listener : Int} {answers : Nat → Answers} {t : Table}
    {entry : PollFd} {s : State} {calls : List Call} (effect : Effect p listener (answers 0) 0 t entry s calls)
    (wf : WellFormed listener t) (here : t.live[0]? = some entry) (fresh : FreshFor t (answers 0)) :
    (CutShort p answers t → s.phase = .exited) ∧
      (¬CutShort p answers t → s.phase = .scan 1 ∧ WellFormed listener s.table ∧
        s.table.fdCount ≤ t.fdCount + 1 ∧ s.table.live.drop 1 = clients answers t) ∧
      recvFds calls = [] ∧ acceptFds calls = (if t.marked 0 then [listener] else []) ∧
      ∀ ready, Call.poll ready ∉ calls := by
  have mark : t.marked 0 = entry.readable := by simp [marked, here]
  have bound : 0 < t.live.length := by rw [wf.length_live]; exact wf.positive
  have wf' := effect.wellFormed wf here (fun _ => fresh)
  cases effect with
  | idle quiet => simp [CutShort, Joins, clients, recvFds, acceptFds, mark, quiet, wf]
  | accepted ready own ok sane count grown =>
    have stays : ¬CutShort p answers t := fun cut => absurd cut.2.2 (by omega)
    have joins : Joins answers t := ⟨mark.trans ready, ok⟩
    have ahead : (t.live ++ [(⟨(answers 0).accept, POLLIN, t.staleRevents (answers 0).junk⟩ : PollFd)]).drop 1 =
        clients answers t := by
      rw [List.drop_append_of_le_length (by omega), clients, if_pos joins]
    refine ⟨fun cut => absurd cut stays, fun _ => ⟨rfl, wf', by simp [count], ?_⟩, ?_⟩
    · simpa only [grown] using ahead
    · simp [recvFds, acceptFds, mark, ready]
  | refused ready own failed =>
    have alone : ¬Joins answers t := fun joins => absurd joins.2 (by omega)
    refine ⟨?_, ?_, ?_⟩
    · rintro ⟨rfl, -, -⟩
      rfl
    · intro stays
      cases p with
      | pollServer => simp [Program.afterRefusal, clients, alone, wf]
      | pollServer2 => exact absurd ⟨rfl, mark.trans ready, by omega⟩ stays
    · simp [recvFds, acceptFds, mark, ready]
  | left ready client => omega
  | data ready client => omega

/-- Every call of the loop over `pfds` that services a descriptor. -/
theorem scanLoop_calls (p : Program) {listener : Int} (answers : Nat → Answers) {t : Table}
    (wf : WellFormed listener t) (fresh : FreshFor t (answers 0)) :
    recvFds (scanLoop p listener answers t).2 =
        (if CutShort p answers t then [] else sweptFds answers 1 (clients answers t)) ∧
      acceptFds (scanLoop p listener answers t).2 = (if t.marked 0 then [listener] else []) ∧
      ∀ ready, Call.poll ready ∉ (scanLoop p listener answers t).2 := by
  have inside : 0 < t.fdCount := wf.positive
  obtain ⟨entry, here, -, -⟩ := wf.entry inside
  have effect : Effect p listener (answers 0) 0 t entry _ _ := visit_effect p wf inside here (fun _ => fresh.low)
  obtain ⟨cut, stays, recvs, accepts, polls⟩ := effect.at_listener wf here fresh
  rw [scanLoop, Machine.runWhile_busy _ (by rfl), step_scan inside]
  by_cases short : CutShort p answers t
  · have idle : (p.visit listener (answers 0) 0 t).1.scanning = false := by
      simp [State.scanning, cut short]
    rw [Machine.runWhile_idle _ idle]
    simp [short, recvs, accepts, polls]
  · obtain ⟨next, wf', count, ahead⟩ := stays short
    have same : (p.visit listener (answers 0) 0 t).1 =
        ⟨(p.visit listener (answers 0) 0 t).1.table, .scan 1⟩ := by
      rw [← next]
    have later := scan_clients p answers (t.fdCount + 2) 1 wf' (by omega) (by omega)
    rw [← same, ahead] at later
    simp only [recvFds_append, acceptFds_append]
    rw [later.1, later.2.1, recvs, accepts, if_neg short]
    refine ⟨by simp, by simp, ?_⟩
    intro ready member
    rcases List.mem_append.mp member with first | rest
    · exact polls ready first
    · exact later.2.2 ready rest

end SocketPrograms.Poll
