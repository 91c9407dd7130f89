import Mathlib.Data.Finset.Lattice.Lemmas
import SocketPrograms.Select.Server

/-! The descriptors of the select server. `HandleClient` returns without closing its socket, so
that every client that is served leaves one behind. -/

namespace SocketPrograms.Select
open Lib

def Answers.TimesOut (ans : Answers) (sockets : List Int) : Prop :=
  ∃ ready, ans.select = some ready ∧ ∀ fd ∈ STDIN_FILENO :: sockets, HasRoom fd → fd ∉ ready

/-- Behind `select` the listening socket at index `i` is taken for ready. -/
def Answers.Marks (ans : Answers) (i : Nat) (sock : Int) : Prop :=
  if HasRoom sock then ∀ ready, ans.select = some ready → sock ∈ ready else ans.stray i = true

def breaksOff : Client → Bool
  | [] => false
  | (none, _) :: _ => true
  | (some buf, sent) :: rest => if buf = [] then false else if sent ≠ buf.length then true else breaksOff rest

def Answers.Serves (ans : Answers) (i : Nat) : Prop := 0 ≤ ans.accept i ∧ breaksOff (ans.client i) = false

/-- `select` times out, or no listening socket is marked in this turn, or a marked one ends the
process: its `accept` fails or its client breaks off. -/
def Tight (sockets : List Int) (ans : Answers) : Prop :=
  ans.TimesOut sockets ∨ (∀ i sock, sockets[i]? = some sock → ¬ ans.Marks i sock) ∨
    ∃ i sock, sockets[i]? = some sock ∧ ans.Marks i sock ∧ ¬ ans.Serves i

def NoLeak (sockets : List Int) (inputs : List Answers) : Prop :=
  ∀ first rest, inputs = first ++ rest → ((server sockets).run first .running).1.atTop →
    openSockets sockets ((server sockets).run first .running).2 = listening sockets

def acceptedFds (calls : List Call) : List Int :=
  calls.filterMap fun
    | .accept _ result => if 0 ≤ result then some result else none
    | _ => none

theorem openSockets_append (sockets : List Int) (past calls : List Call) :
    openSockets sockets (past ++ calls) = calls.foldl Call.track (openSockets sockets past) :=
  List.foldl_append

@[simp] theorem acceptedFds_append (first second : List Call) :
    acceptedFds (first ++ second) = acceptedFds first ++ acceptedFds second :=
  List.filterMap_append

@[simp] theorem acceptedFds_fdIsSet (fd : Int) (calls : List Call) :
    acceptedFds (.fdIsSet fd :: calls) = acceptedFds calls := rfl

theorem track_open {calls : List Call} (keeps : ∀ fd, Call.close fd ∉ calls) (sockets : Finset Int) :
    calls.foldl Call.track sockets = sockets ∪ (acceptedFds calls).toFinset := by
  induction calls generalizing sockets with
  | nil => simp [acceptedFds]
  | cons call rest ih =>
    have later : ∀ fd, Call.close fd ∉ rest := fun fd member => keeps fd (List.mem_cons_of_mem _ member)
    rw [List.foldl_cons, ih later]
    cases call with
    | accept listener result =>
      by_cases success : 0 ≤ result
      · have first : acceptedFds (.accept listener result :: rest) = result :: acceptedFds rest := by
          simp [acceptedFds, success]
        rw [first, Call.track, if_pos success, List.toFinset_cons, Finset.insert_union, Finset.union_insert]
      · simp [Call.track, acceptedFds, success]
    | close fd => exact absurd (List.mem_cons_self ..) (keeps fd)
    | fdSet fd | select nfds result sockSet | fdIsSet fd | getchar | recv fd got | send fd data result =>
      simp [Call.track, acceptedFds]

theorem handleClient_quiet (sock : Int) (client : Client) :
    (∀ fd, Call.close fd ∉ (handleClient sock client).2) ∧ acceptedFds (handleClient sock client).2 = [] := by
  induction client with
  | nil => simp [handleClient, acceptedFds]
  | cons result rest ih =>
    obtain ⟨got, sent⟩ := result
    cases got with
    | none => simp [handleClient, acceptedFds]
    | some buf =>
      rw [handleClient]
      split_ifs
      · simp [acceptedFds]
      · simp [acceptedFds]
      · simp [acceptedFds]
      · simpa [acceptedFds] using ih

theorem handleClient_returns (sock : Int) (client : Client) :
    (handleClient sock client).1 = !breaksOff client := by
  induction client with
  | nil => rfl
  | cons result rest ih =>
    obtain ⟨got, sent⟩ := result
    cases got with
    | none => rfl
    | some buf =>
      rw [handleClient, breaksOff]
      split_ifs with ended failed short
      · rfl
      · rfl
      · omega
      · rfl
      · exact ih

theorem serveClient_quiet (listeningSock sock : Int) (client : Client) :
    (∀ fd, Call.close fd ∉ (serveClient listeningSock sock client).2) ∧
      ((serveClient listeningSock sock client).1 = true ↔ 0 ≤ sock ∧ breaksOff client = false) ∧
      (0 ≤ sock → acceptedFds (serveClient listeningSock sock client).2 = [sock]) := by
  obtain ⟨quiet, none⟩ := handleClient_quiet sock client
  rw [serveClient]
  split_ifs with failed
  · refine ⟨by simp, iff_of_false (by simp) fun good => by omega, fun good => by omega⟩
  · refine ⟨by simpa using quiet, ?_, fun good => ?_⟩
    · simp only [handleClient_returns, Bool.not_eq_true', Int.not_lt.mp failed, true_and]
    · have first : acceptedFds (.accept listeningSock sock :: (handleClient sock client).2) =
          sock :: acceptedFds (handleClient sock client).2 := by
        simp [acceptedFds, good]
      rw [first, none]

theorem serveSockets_quiet (ans : Answers) (sockSet : List Int) (i : Nat) (sockets : List Int) :
    ∀ fd, Call.close fd ∉ (serveSockets ans sockSet i sockets).2 := by
  induction sockets generalizing i with
  | nil => simp [serveSockets]
  | cons sock rest ih =>
    have later := ih (i + 1)
    have now := (serveClient_quiet sock (ans.accept i) (ans.client i)).1
    intro fd
    rw [serveSockets]
    dsimp only
    split_ifs
    · simp [now fd, later fd]
    · simp [now fd]
    · simp [later fd]

theorem forall_cons {α : Type*} (good : Nat → α → Prop) (x : α) (xs : List α) :
    (∀ j y, (x :: xs)[j]? = some y → good j y) ↔ good 0 x ∧ ∀ j y, xs[j]? = some y → good (j + 1) y := by
  constructor
  · intro all
    exact ⟨all 0 x rfl, fun j y here => all (j + 1) y here⟩
  · intro all j y here
    cases j with
    | zero => exact Option.some.inj here ▸ all.1
    | succ j => exact all.2 j y here

theorem serveSockets_unmarked (ans : Answers) {sockSet : List Int} (i : Nat) {sockets : List Int}
    (unmarked : ∀ j sock, sockets[j]? = some sock → fdIsSet ans sockSet (i + j) sock = false) :
    acceptedFds (serveSockets ans sockSet i sockets).2 = [] := by
  induction sockets generalizing i with
  | nil => rfl
  | cons sock rest ih =>
    obtain ⟨here, others⟩ := (forall_cons (fun j sock => fdIsSet ans sockSet (i + j) sock = false) ..).mp unmarked
    have later := ih (i + 1) fun j other inside => by
      rw [Nat.add_right_comm]
      exact others j other inside
    have plain : ¬ fdIsSet ans sockSet i sock = true := Bool.eq_false_iff.mp here
    rw [serveSockets, if_neg plain]
    exact later

theorem serveSockets_ends (ans : Answers) (sockSet : List Int) (i : Nat) (sockets : List Int) :
    (serveSockets ans sockSet i sockets).1 = true ↔ ∀ j sock, sockets[j]? = some sock →
      fdIsSet ans sockSet (i + j) sock = true → ans.Serves (i + j) := by
  induction sockets generalizing i with
  | nil => simp [serveSockets]
  | cons sock rest ih =>
    have returns : (serveClient sock (ans.accept i) (ans.client i)).1 = true ↔ ans.Serves i :=
      (serveClient_quiet sock (ans.accept i) (ans.client i)).2.1
    have later := ih (i + 1)
    simp only [Nat.add_right_comm i 1] at later
    rw [forall_cons fun j sock => fdIsSet ans sockSet (i + j) sock = true → ans.Serves (i + j), serveSockets]
    dsimp only
    split_ifs with marked served
    · rw [later]
      exact (and_iff_right fun _ => returns.mp served).symm
    · exact iff_of_false (by simp) fun all => served (returns.mpr (all.1 marked))
    · rw [later]
      exact (and_iff_right fun mark => absurd mark marked).symm

theorem serveSockets_accepts (ans : Answers) (sockSet : List Int) (i : Nat) (sockets : List Int)
    (done : (serveSockets ans sockSet i sockets).1 = true) :
    ∀ j sock, sockets[j]? = some sock → fdIsSet ans sockSet (i + j) sock = true →
      ans.accept (i + j) ∈ acceptedFds (serveSockets ans sockSet i sockets).2 := by
  induction sockets generalizing i with
  | nil => simp
  | cons sock rest ih =>
    obtain ⟨-, returns, accepted⟩ := serveClient_quiet sock (ans.accept i) (ans.client i)
    have later := ih (i + 1)
    simp only [Nat.add_right_comm i 1] at later
    rw [forall_cons fun j sock => fdIsSet ans sockSet (i + j) sock = true →
      ans.accept (i + j) ∈ acceptedFds (serveSockets ans sockSet i (_ :: rest)).2]
    rw [serveSockets] at done ⊢
    dsimp only at done ⊢
    split_ifs at done ⊢ with marked served
    · rw [List.cons_append, acceptedFds_fdIsSet, acceptedFds_append, accepted (returns.mp served).1]
      constructor
      · intro _
        exact List.mem_append_left _ (List.mem_singleton.mpr rfl)
      · intro j other here mark
        exact List.mem_append_right _ (later done j other here mark)
    · exact ⟨fun mark => absurd mark marked, later done⟩

/-! ### One turn -/

theorem fdSets_quiet (sockSet fds : List Int) :
    (∀ fd, Call.close fd ∉ (fdSets sockSet fds).2) ∧ acceptedFds (fdSets sockSet fds).2 = [] := by
  induction fds generalizing sockSet with
  | nil => simp [fdSets, acceptedFds]
  | cons fd rest ih =>
    obtain ⟨quiet, none⟩ := ih (if HasRoom fd then sockSet.insert fd else sockSet)
    rw [fdSets]
    exact ⟨by simpa using quiet, none⟩

theorem mem_fdSets (sockSet fds : List Int) (fd : Int) :
    fd ∈ (fdSets sockSet fds).1 ↔ fd ∈ sockSet ∨ fd ∈ fds ∧ HasRoom fd := by
  induction fds generalizing sockSet with
  | nil => simp [fdSets]
  | cons first rest ih =>
    rw [fdSets, ih]
    split_ifs with room
    · rw [List.mem_insert_iff, List.mem_cons]
      constructor
      · rintro ((rfl | old) | later)
        · exact Or.inr ⟨Or.inl rfl, room⟩
        · exact Or.inl old
        · exact Or.inr ⟨Or.inr later.1, later.2⟩
      · tauto
    · rw [List.mem_cons]
      constructor
      · tauto
      · rintro (old | ⟨rfl | later, own⟩)
        · exact Or.inl old
        · exact absurd own room
        · exact Or.inr ⟨later, own⟩

def watched (sockets : List Int) : List Int := (fdSets [] (STDIN_FILENO :: sockets)).1

theorem mem_watched (sockets : List Int) (fd : Int) :
    fd ∈ watched sockets ↔ fd ∈ STDIN_FILENO :: sockets ∧ HasRoom fd := by
  rw [watched, mem_fdSets, or_iff_right List.not_mem_nil]

theorem turn_eq (sockets : List Int) (ans : Answers) :
    turn sockets ans =
      let marked := select ans (watched sockets)
      let calls := (fdSets [] (STDIN_FILENO :: sockets)).2 ++ [.select (maxDesc sockets + 1) marked.1 marked.2]
      let served := serveSockets ans marked.2 0 sockets
      if marked.1 = 0 then (.running, calls)
      else
        let calls := calls ++ .fdIsSet STDIN_FILENO :: (if STDIN_FILENO ∈ marked.2 then [.getchar] else []) ++ served.2
        if served.1 then (if STDIN_FILENO ∈ marked.2 then .stopping else .running, calls) else (.exited, calls) := rfl

def behindSelect (sockets : List Int) (ans : Answers) : List Call :=
  if (select ans (watched sockets)).1 = 0 then []
  else .fdIsSet STDIN_FILENO :: (if STDIN_FILENO ∈ (select ans (watched sockets)).2 then [.getchar] else []) ++
    (serveSockets ans (select ans (watched sockets)).2 0 sockets).2

theorem turn_calls (sockets : List Int) (ans : Answers) :
    (turn sockets ans).2 = (fdSets [] (STDIN_FILENO :: sockets)).2 ++
      .select (maxDesc sockets + 1) (select ans (watched sockets)).1 (select ans (watched sockets)).2 ::
        behindSelect sockets ans := by
  rw [turn_eq]
  unfold behindSelect
  dsimp only
  split_ifs <;> simp

theorem turn_state (sockets : List Int) (ans : Answers) :
    (turn sockets ans).1 = if (select ans (watched sockets)).1 = 0 then .running
      else if (serveSockets ans (select ans (watched sockets)).2 0 sockets).1 then
        if STDIN_FILENO ∈ (select ans (watched sockets)).2 then .stopping else .running
      else .exited := by
  rw [turn_eq]
  dsimp only
  split_ifs <;> rfl

theorem behindSelect_quiet (sockets : List Int) (ans : Answers) : ∀ fd, Call.close fd ∉ behindSelect sockets ans := by
  intro fd
  have serves := serveSockets_quiet ans (select ans (watched sockets)).2 0 sockets fd
  unfold behindSelect
  split_ifs <;> simp [serves]

theorem turn_quiet (sockets : List Int) (ans : Answers) : ∀ fd, Call.close fd ∉ (turn sockets ans).2 := by
  intro fd
  have sets := (fdSets_quiet [] (STDIN_FILENO :: sockets)).1 fd
  have behind := behindSelect_quiet sockets ans fd
  rw [turn_calls]
  simp [sets, behind]

theorem turn_accepts (sockets : List Int) (ans : Answers) :
    acceptedFds (turn sockets ans).2 = acceptedFds (behindSelect sockets ans) := by
  rw [turn_calls, acceptedFds_append, (fdSets_quiet [] (STDIN_FILENO :: sockets)).2]
  rfl

theorem select_idle_iff (sockets : List Int) (ans : Answers) :
    (select ans (watched sockets)).1 = 0 ↔ ans.TimesOut sockets := by
  unfold select Answers.TimesOut
  cases found : ans.select with
  | none => simp
  | some ready =>
    have empty : (((watched sockets).filter (· ∈ ready)).length : Int) = 0 ↔
        ∀ fd ∈ STDIN_FILENO :: sockets, HasRoom fd → fd ∉ ready := by
      rw [Int.natCast_eq_zero, List.length_eq_zero_iff, List.filter_eq_nil_iff]
      constructor
      · intro none fd member room
        simpa using none fd ((mem_watched sockets fd).mpr ⟨member, room⟩)
      · intro none fd member
        obtain ⟨inside, room⟩ := (mem_watched sockets fd).mp member
        simpa using none fd inside room
    dsimp only
    rw [empty]
    constructor
    · intro idle
      exact ⟨ready, rfl, idle⟩
    · rintro ⟨ready, ⟨⟩, idle⟩
      exact idle

theorem fdIsSet_iff {sockets : List Int} {i : Nat} {sock : Int} (here : sockets[i]? = some sock) (ans : Answers) :
    fdIsSet ans (select ans (watched sockets)).2 i sock = true ↔ ans.Marks i sock := by
  unfold fdIsSet Answers.Marks
  split_ifs with room
  · have member := (mem_watched sockets sock).mpr ⟨List.mem_cons_of_mem _ (List.mem_of_getElem? here), room⟩
    rw [decide_eq_true_eq, select]
    cases found : ans.select with
    | none => simp [member]
    | some ready => simp [member]
  · exact Iff.rfl

/-- `select` times out, or the loop over the sockets decides what follows and which clients are
accepted. -/
theorem turn_cases (sockets : List Int) (ans : Answers) :
    (ans.TimesOut sockets ∧ (turn sockets ans).1 = .running ∧ acceptedFds (turn sockets ans).2 = []) ∨
      ¬ ans.TimesOut sockets ∧
        ((turn sockets ans).1.atTop ↔
          (serveSockets ans (select ans (watched sockets)).2 0 sockets).1 = true) ∧
        acceptedFds (turn sockets ans).2 =
          acceptedFds (serveSockets ans (select ans (watched sockets)).2 0 sockets).2 := by
  rw [← select_idle_iff, turn_accepts, turn_state, behindSelect]
  by_cases idle : (select ans (watched sockets)).1 = 0
  · rw [if_pos idle, if_pos idle]
    exact Or.inl ⟨idle, rfl, rfl⟩
  · rw [if_neg idle, if_neg idle]
    refine Or.inr ⟨idle, ?_, ?_⟩
    · split_ifs with served
      · simp [State.atTop, served]
      · simp [State.atTop, served]
      · simp [State.atTop, served]
    · split_ifs <;> rfl

theorem turn_tight {sockets : List Int} {ans : Answers} (tight : Tight sockets ans)
    (back : (turn sockets ans).1.atTop) : acceptedFds (turn sockets ans).2 = [] := by
  rcases turn_cases sockets ans with ⟨-, -, none⟩ | ⟨busy, ends, accepted⟩
  · exact none
  rw [accepted]
  rcases tight with idle | unmarked | ⟨i, sock, here, mark, fails⟩
  · exact absurd idle busy
  · apply serveSockets_unmarked
    intro j sock here
    rw [Nat.zero_add, Bool.eq_false_iff]
    exact fun mark => unmarked j sock here ((fdIsSet_iff here ans).mp mark)
  · have served := (serveSockets_ends ans _ 0 sockets).mp (ends.mp back) i sock here
    rw [Nat.zero_add] at served
    exact absurd (served ((fdIsSet_iff here ans).mpr mark)) fails

theorem turn_loose {sockets : List Int} {ans : Answers} (loose : ¬ Tight sockets ans) :
    (turn sockets ans).1.atTop ∧ ∃ fd ∈ acceptedFds (turn sockets ans).2, 0 ≤ fd := by
  simp only [Tight, not_or, not_exists, not_and, not_forall, not_not] at loose
  obtain ⟨busy, ⟨i, sock, here, mark⟩, goes⟩ := loose
  rcases turn_cases sockets ans with ⟨idle, -⟩ | ⟨-, ends, accepted⟩
  · exact absurd idle busy
  have served : (serveSockets ans (select ans (watched sockets)).2 0 sockets).1 = true := by
    apply (serveSockets_ends ans _ 0 sockets).mpr
    intro j other there inside
    rw [Nat.zero_add] at inside ⊢
    exact goes j other there ((fdIsSet_iff there ans).mp inside)
  have inside := serveSockets_accepts ans _ 0 sockets served i sock here
  rw [Nat.zero_add] at inside
  refine ⟨ends.mpr served, ans.accept i, ?_, (goes i sock here mark).1⟩
  rw [accepted]
  exact inside ((fdIsSet_iff here ans).mpr mark)

/-! ### Runs -/

theorem fresh_not_open {sockets : List Int} {past calls : List Call} (keeps : ∀ fd, Call.close fd ∉ calls)
    (fresh : Each (fun before => FreshAccept sockets (past ++ before)) calls) {fd : Int}
    (member : fd ∈ acceptedFds calls) (success : 0 ≤ fd) : fd ∉ openSockets sockets past := by
  obtain ⟨call, inside, returned⟩ := List.mem_filterMap.mp member
  cases call with
  | accept listener result =>
    obtain ⟨-, rfl⟩ : 0 ≤ result ∧ result = fd := by simpa using returned
    obtain ⟨before, after, rfl⟩ := List.append_of_mem inside
    have quiet : ∀ fd, Call.close fd ∉ before := fun fd old => keeps fd (List.mem_append_left _ old)
    rcases fresh before _ after rfl with failed | new
    · omega
    · intro old
      apply new
      rw [openSockets_append, track_open quiet]
      exact Finset.mem_union_left _ old
  | fdSet fd | select nfds result sockSet | fdIsSet fd | getchar | recv fd got | send fd data result | close fd =>
    cases returned

theorem step_gone {s : State} (gone : s ≠ .running) (sockets : List Int) (ans : Answers) :
    ((server sockets).step ans s).1 ≠ .running ∧ ¬ ((server sockets).step ans s).1.atTop := by
  cases s with
  | running => exact absurd rfl gone
  | stopping | returned | exited => simp [server, step, State.atTop]

theorem always_gone {s : State} (gone : s ≠ .running) (sockets : List Int) {good : List Call → State → Prop}
    (vacuous : ∀ past s, ¬ s.atTop → good past s) (inputs : List Answers) {past : List Call} (now : good past s) :
    (server sockets).Always good inputs past s := by
  induction inputs generalizing s past with
  | nil => exact now
  | cons ans rest ih =>
    have next := step_gone gone sockets ans
    exact ⟨now, ih next.1 (vacuous _ _ next.2)⟩

theorem along_gone {s : State} (gone : s ≠ .running) (sockets : List Int) (asked : Answers → Prop)
    (inputs : List Answers) (past : List Call) :
    (server sockets).Along (fun _ s ans => s = .running → asked ans) inputs past s := by
  induction inputs generalizing s past with
  | nil => trivial
  | cons ans rest ih => exact ⟨fun running => absurd running gone, ih (step_gone gone sockets ans).1 _⟩

theorem turn_opened {sockets : List Int} (ans : Answers) {past : List Call}
    (clean : openSockets sockets past = listening sockets) :
    openSockets sockets (past ++ (turn sockets ans).2) =
      listening sockets ∪ (acceptedFds (turn sockets ans).2).toFinset := by
  rw [openSockets_append, track_open (turn_quiet sockets ans), clean]

theorem turn_leaks {sockets : List Int} {ans : Answers} {past : List Call} (loose : ¬ Tight sockets ans)
    (clean : openSockets sockets past = listening sockets)
    (fresh : Each (fun before => FreshAccept sockets (past ++ before)) (turn sockets ans).2) :
    (turn sockets ans).1.atTop ∧ openSockets sockets (past ++ (turn sockets ans).2) ≠ listening sockets := by
  obtain ⟨back, fd, member, success⟩ := turn_loose loose
  refine ⟨back, fun now => ?_⟩
  rw [turn_opened ans clean, ← clean] at now
  have leaked : fd ∈ openSockets sockets past := now ▸ Finset.mem_union_right _ (List.mem_toFinset.mpr member)
  exact fresh_not_open (turn_quiet sockets ans) fresh member success leaked

theorem noLeak_from (sockets : List Int) (inputs : List Answers) {past : List Call}
    (keeps : ∀ fd, Call.close fd ∉ past) (clean : openSockets sockets past = listening sockets)
    (fresh : Each (FreshAccept sockets) (past ++ ((server sockets).run inputs .running).2)) :
    (server sockets).Always (fun past s => s.atTop → openSockets sockets past = listening sockets) inputs past
        .running ↔
      (server sockets).Along (fun _ s ans => s = .running → Tight sockets ans) inputs past .running := by
  induction inputs generalizing past with
  | nil => exact iff_of_true (fun _ => clean) trivial
  | cons ans inputs ih =>
    have quiet := turn_quiet sockets ans
    have step : (server sockets).step ans .running = turn sockets ans := rfl
    rw [Machine.run_cons, step, ← List.append_assoc] at fresh
    rw [Machine.Always, Machine.Along, step]
    by_cases tight : Tight sockets ans
    · have same (back : (turn sockets ans).1.atTop) :
          openSockets sockets (past ++ (turn sockets ans).2) = listening sockets := by
        rw [turn_opened ans clean, turn_tight tight back]
        simp
      apply and_congr (iff_of_true (fun _ => clean) fun _ => tight)
      by_cases running : (turn sockets ans).1 = .running
      · have keeps' : ∀ fd, Call.close fd ∉ past ++ (turn sockets ans).2 := by
          intro fd member
          rcases List.mem_append.mp member with old | new
          · exact keeps fd old
          · exact quiet fd new
        rw [running] at fresh ⊢
        exact ih keeps' (same (Or.inl running)) fresh
      · apply iff_of_true
        · exact always_gone running sockets (fun _ _ away back => absurd back away) inputs same
        · exact along_gone running sockets _ inputs _
    · rw [each_append, each_append] at fresh
      obtain ⟨back, leaks⟩ := turn_leaks tight clean fresh.1.2
      exact iff_of_false (fun always => leaks (always.2.head back)) fun along => tight (along.1 rfl)

/-- No descriptor leaks exactly when every turn is tight. -/
theorem noLeak_iff (sockets : List Int) (inputs : List Answers)
    (fresh : Each (FreshAccept sockets) ((server sockets).run inputs .running).2) :
    NoLeak sockets inputs ↔
      (server sockets).Along (fun _ s ans => s = .running → Tight sockets ans) inputs [] .running := by
  have nothing : ∀ fd, Call.close fd ∉ ([] : List Call) := by simp
  rw [← noLeak_from sockets inputs nothing rfl (by rw [List.nil_append]; exact fresh), Machine.always_iff]
  rfl

def oneClient : Answers := ⟨some [3], fun _ => 4, fun _ => [], fun _ => false⟩

theorem one_client_leaks :
    Each (FreshAccept [3]) ((server [3]).run [oneClient] .running).2 ∧ ¬ NoLeak [3] [oneClient] := by
  refine ⟨?_, fun tight => ?_⟩
  · have calls : ((server [3]).run [oneClient] .running).2 =
        [.fdSet 0, .fdSet 3, .select 4 1 [3], .fdIsSet 0, .fdIsSet 3, .accept 3 4, .recv 4 (some [])] := by decide
    rw [calls]
    simp [FreshAccept, openSockets, listening, Call.track]
  · have back : ((server [3]).run [oneClient] .running).1 = .running := by decide
    have leaked : openSockets [3] ((server [3]).run [oneClient] .running).2 = {3, 4} := by decide
    have clean := tight [oneClient] [] rfl (Or.inl back)
    rw [leaked] at clean
    exact absurd clean (by decide)

/-- Two sockets, the second of which has not been set up, and a client whose `recv` fails. -/
theorem broken_client_keeps :
    NoLeak [3, -1] [⟨some [3], fun _ => 5, fun _ => [(none, 0)], fun _ => false⟩] := by
  have calls : ((server [3, -1]).run [⟨some [3], fun _ => 5, fun _ => [(none, 0)], fun _ => false⟩] .running).2 =
      [.fdSet 0, .fdSet 3, .fdSet (-1), .select 4 1 [3], .fdIsSet 0, .fdIsSet 3, .accept 3 5, .recv 5 none] := by decide
  have fresh : Each (FreshAccept [3, -1])
      ((server [3, -1]).run [⟨some [3], fun _ => 5, fun _ => [(none, 0)], fun _ => false⟩] .running).2 := by
    rw [calls]
    simp [FreshAccept, openSockets, listening, Call.track]
  have marked : Answers.Marks ⟨some [3], fun _ => 5, fun _ => [(none, 0)], fun _ => false⟩ 0 3 := by
    simp [Answers.Marks, show HasRoom 3 by decide]
  apply (noLeak_iff [3, -1] [⟨some [3], fun _ => 5, fun _ => [(none, 0)], fun _ => false⟩] fresh).mpr
  exact ⟨fun _ => Or.inr (Or.inr ⟨0, 3, rfl, marked, by simp [Answers.Serves, breaksOff]⟩), trivial⟩

end SocketPrograms.Select
