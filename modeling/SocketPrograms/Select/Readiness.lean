import SocketPrograms.Select.Descriptors

/-! What the select server does on the strength of a `select`. When `select` fails it leaves
the set as it was, and the server takes every descriptor in it for ready. -/

namespace SocketPrograms.Select
open Lib

inductive Acts (sockets sockSet : List Int) : Call → Prop where
  | fdIsSet {fd : Int} (watched : fd ∈ STDIN_FILENO :: sockets) : Acts sockets sockSet (.fdIsSet fd)
  | getchar (marked : STDIN_FILENO ∈ sockSet) : Acts sockets sockSet .getchar
  | accept {listener : Int} (result : Int) (watched : listener ∈ sockets) :
      Acts sockets sockSet (.accept listener result)
  | recv (fd : Int) (got : Option (List UInt8)) : Acts sockets sockSet (.recv fd got)
  | send (fd : Int) (data : List UInt8) (result : Int) : Acts sockets sockSet (.send fd data result)

theorem handleClient_acts (sockets sockSet : List Int) (sock : Int) (client : Client) :
    ∀ call ∈ (handleClient sock client).2, Acts sockets sockSet call := by
  induction client with
  | nil => simpa [handleClient] using Acts.recv sock (some [])
  | cons result rest ih =>
    obtain ⟨got, sent⟩ := result
    cases got with
    | none => simpa [handleClient] using Acts.recv sock none
    | some buf =>
      have received : Acts sockets sockSet (.recv sock (some buf)) := Acts.recv sock (some buf)
      have echoed : Acts sockets sockSet (.send sock buf sent) := Acts.send sock buf sent
      rw [handleClient]
      split_ifs
      · simpa using received
      · simpa using ⟨received, echoed⟩
      · simpa using ⟨received, echoed⟩
      · simpa using ⟨received, echoed, ih⟩

theorem serveSockets_acts (ans : Answers) {sockets sockSet : List Int} (i : Nat) {rest : List Int}
    (watched : ∀ sock ∈ rest, sock ∈ sockets) :
    ∀ call ∈ (serveSockets ans sockSet i rest).2, Acts sockets sockSet call := by
  induction rest generalizing i with
  | nil => simp [serveSockets]
  | cons sock rest ih =>
    have here := watched sock List.mem_cons_self
    have asked : Acts sockets sockSet (.fdIsSet sock) := Acts.fdIsSet (List.mem_cons_of_mem _ here)
    have later := ih (i + 1) fun other member => watched other (List.mem_cons_of_mem sock member)
    have served : ∀ call ∈ (serveClient sock (ans.accept i) (ans.client i)).2, Acts sockets sockSet call := by
      have accepted : Acts sockets sockSet (.accept sock (ans.accept i)) := Acts.accept _ here
      have handled := handleClient_acts sockets sockSet (ans.accept i) (ans.client i)
      rw [serveClient]
      split_ifs
      · simpa using accepted
      · simpa using ⟨accepted, handled⟩
    rw [serveSockets]
    dsimp only
    split_ifs with marked returns
    · intro call member
      rw [List.cons_append, List.mem_cons, List.mem_append] at member
      rcases member with rfl | now | behind
      · exact asked
      · exact served call now
      · exact later call behind
    · simpa using ⟨asked, served⟩
    · simpa using ⟨asked, later⟩

theorem fdSets_calls (sockSet fds : List Int) : ∀ call ∈ (fdSets sockSet fds).2, ∃ fd ∈ fds, call = .fdSet fd := by
  induction fds generalizing sockSet with
  | nil => simp [fdSets]
  | cons fd rest ih =>
    have later := ih (if HasRoom fd then sockSet.insert fd else sockSet)
    rw [fdSets]
    intro call member
    rcases List.mem_cons.mp member with rfl | behind
    · exact ⟨fd, List.mem_cons_self, rfl⟩
    · obtain ⟨other, inside, same⟩ := later call behind
      exact ⟨other, List.mem_cons_of_mem fd inside, same⟩

theorem behindSelect_acts (sockets : List Int) (ans : Answers) :
    ∀ call ∈ behindSelect sockets ans, Acts sockets (select ans (watched sockets)).2 call := by
  have asked : Acts sockets (select ans (watched sockets)).2 (.fdIsSet STDIN_FILENO) := Acts.fdIsSet List.mem_cons_self
  have served : ∀ call ∈ (serveSockets ans (select ans (watched sockets)).2 0 sockets).2,
      Acts sockets (select ans (watched sockets)).2 call := serveSockets_acts ans 0 fun _ member => member
  rw [behindSelect]
  split_ifs with idle marked
  · simp
  · intro call member
    rcases List.mem_append.mp member with front | behind
    · rcases List.mem_cons.mp front with rfl | read
      · exact asked
      · rw [List.mem_singleton.mp read]
        exact Acts.getchar marked
    · exact served call behind
  · simpa using ⟨asked, served⟩

/-! ### Reported readiness -/

def Call.latest (last : Option (Int × List Int)) : Call → Option (Int × List Int)
  | .select _ result sockSet => some (result, sockSet)
  | _ => last

def lastSelect (past : List Call) : Option (Int × List Int) := past.foldl Call.latest none

def Reports (last : Option (Int × List Int)) (fd : Int) : Prop :=
  ∃ result sockSet, last = some (result, sockSet) ∧ 0 ≤ result ∧ fd ∈ sockSet

/-- The server waits for a client, or for the end, only on a descriptor that is reported. -/
def Call.Backed (last : Option (Int × List Int)) : Call → Prop
  | .accept listener _ => Reports last listener
  | .getchar => Reports last STDIN_FILENO
  | _ => True

def Reported (past : List Call) (call : Call) : Prop := call.Backed (lastSelect past)

def Call.isSelect : Call → Prop
  | .select _ _ _ => True
  | _ => False

theorem lastSelect_append (past : List Call) {calls : List Call} (between : ∀ call ∈ calls, ¬ call.isSelect) :
    lastSelect (past ++ calls) = lastSelect past := by
  rw [lastSelect, List.foldl_append, ← lastSelect]
  induction calls with
  | nil => rfl
  | cons call rest ih =>
    have other := between call List.mem_cons_self
    have later := ih fun call' member => between call' (List.mem_cons_of_mem call member)
    cases call with
    | select nfds result sockSet => exact absurd trivial other
    | fdSet fd | fdIsSet fd | getchar | accept listener result | recv fd got | send fd data result | close fd =>
      exact later

theorem each_reported {past calls : List Call} (between : ∀ call ∈ calls, ¬ call.isSelect) :
    Each (fun before => Reported (past ++ before)) calls ↔ ∀ call ∈ calls, call.Backed (lastSelect past) := by
  have same {before after : List Call} {call : Call} (split : calls = before ++ call :: after) :
      lastSelect (past ++ before) = lastSelect past :=
    lastSelect_append past fun call' member => between call' (split ▸ List.mem_append_left _ member)
  constructor
  · intro each call member
    obtain ⟨before, after, split⟩ := List.append_of_mem member
    have now : call.Backed (lastSelect (past ++ before)) := each before call after split
    rwa [same split] at now
  · intro all before call after split
    have now := all call (split ▸ List.mem_append_right _ List.mem_cons_self)
    rwa [← same split] at now

theorem Acts.not_select {sockets sockSet : List Int} {call : Call} (acts : Acts sockets sockSet call) :
    ¬ call.isSelect := by
  cases acts <;> exact id

theorem lastSelect_select (past : List Call) (nfds result : Int) (sockSet : List Int) :
    lastSelect (past ++ [.select nfds result sockSet]) = some (result, sockSet) := by
  rw [lastSelect, List.foldl_append]
  rfl

theorem fdSets_reported (past : List Call) (fds : List Int) :
    Each (fun before => Reported (past ++ before)) (fdSets [] fds).2 := by
  have sets := fdSets_calls [] fds
  rw [each_reported]
  · intro call member
    obtain ⟨fd, -, rfl⟩ := sets call member
    trivial
  · intro call member
    obtain ⟨fd, -, rfl⟩ := sets call member
    exact id

def Answers.Reaches (ans : Answers) (sockets : List Int) (i : Nat) : Prop :=
  ∀ j < i, ∀ sock, sockets[j]? = some sock → ans.Marks j sock → ans.Serves j

/-- `select` succeeds, and unless it times out the loop gets to no socket that is taken for ready
though an `fd_set` has no room for it. -/
def Answers.Sound (ans : Answers) (sockets : List Int) : Prop :=
  ans.select ≠ none ∧ (ans.TimesOut sockets ∨
    ∀ i sock, sockets[i]? = some sock → ¬ HasRoom sock → ans.Reaches sockets i → ans.stray i = false)

theorem handleClient_backed (last : Option (Int × List Int)) (sock : Int) (client : Client) :
    ∀ call ∈ (handleClient sock client).2, call.Backed last := by
  intro call member
  have acts := handleClient_acts [] [] sock client call member
  cases acts with
  | fdIsSet | recv | send => trivial
  | getchar marked => cases marked
  | accept result watched => cases watched

theorem serveClient_backed (last : Option (Int × List Int)) (listener sock : Int) (client : Client) :
    (∀ call ∈ (serveClient listener sock client).2, call.Backed last) ↔ Reports last listener := by
  have handled := handleClient_backed last sock client
  rw [serveClient]
  split_ifs
  · exact List.forall_mem_singleton
  · rw [List.forall_mem_cons]
    exact and_iff_left handled

theorem reports_iff {result : Int} (success : 0 ≤ result) (sockSet : List Int) (fd : Int) :
    Reports (some (result, sockSet)) fd ↔ fd ∈ sockSet := by
  constructor
  · rintro ⟨result', sockSet', same, -, member⟩
    obtain ⟨-, rfl⟩ := Prod.mk.inj (Option.some.inj same)
    exact member
  · intro member
    exact ⟨result, sockSet, rfl, success, member⟩

theorem forall_lt_cons {α : Type*} (good : Nat → α → Prop) (x : α) (xs : List α) (j : Nat) :
    (∀ k < j + 1, ∀ y, (x :: xs)[k]? = some y → good k y) ↔
      good 0 x ∧ ∀ k < j, ∀ y, xs[k]? = some y → good (k + 1) y := by
  have split := forall_cons (fun k y => k < j + 1 → good k y) x xs
  constructor
  · intro all
    obtain ⟨first, later⟩ := split.mp fun k y here less => all k less y here
    exact ⟨first (Nat.succ_pos j), fun k less y here => later k y here (Nat.succ_lt_succ less)⟩
  · intro ⟨first, later⟩ k less y here
    exact split.mpr ⟨fun _ => first, fun k y here less => later k (Nat.lt_of_succ_lt_succ less) y here⟩ k y here less

theorem reports_marked {ans : Answers} {sockSet : List Int} {result : Int} (success : 0 ≤ result)
    (bits : ∀ fd ∈ sockSet, HasRoom fd) {i : Nat} {sock : Int} (marked : fdIsSet ans sockSet i sock = true) :
    Reports (some (result, sockSet)) sock ↔ (¬ HasRoom sock → ans.stray i = false) := by
  rw [reports_iff success]
  unfold fdIsSet at marked
  split_ifs at marked with room
  · exact iff_of_true (by simpa using marked) fun none => absurd room none
  · exact iff_of_false (fun member => room (bits sock member)) fun quiet => by simp [quiet room] at marked

/-- What the loop over the listening sockets does is backed by a `select` that succeeded, unless it
gets to a socket without a bit that is taken for ready. -/
theorem serveSockets_backed (ans : Answers) {sockSet : List Int} {result : Int} (success : 0 ≤ result)
    (bits : ∀ fd ∈ sockSet, HasRoom fd) (i : Nat) (sockets : List Int) :
    (∀ call ∈ (serveSockets ans sockSet i sockets).2, call.Backed (some (result, sockSet))) ↔
      ∀ j sock, sockets[j]? = some sock → ¬ HasRoom sock →
        (∀ k < j, ∀ other, sockets[k]? = some other → fdIsSet ans sockSet (i + k) other = true → ans.Serves (i + k)) →
          ans.stray (i + j) = false := by
  induction sockets generalizing i with
  | nil => simp [serveSockets]
  | cons sock rest ih =>
    have later := ih (i + 1)
    simp only [Nat.add_right_comm i 1] at later
    have served := serveClient_backed (some (result, sockSet)) sock (ans.accept i) (ans.client i)
    have returns : (serveClient sock (ans.accept i) (ans.client i)).1 = true ↔ ans.Serves i :=
      (serveClient_quiet sock (ans.accept i) (ans.client i)).2.1
    have asked : (Call.fdIsSet sock).Backed (some (result, sockSet)) := trivial
    have first : ((∀ k < 0, ∀ other, (sock :: rest)[k]? = some other → fdIsSet ans sockSet (i + k) other = true →
        ans.Serves (i + k)) → ans.stray (i + 0) = false) ↔ ans.stray i = false :=
      forall_prop_of_true fun k less => absurd less (Nat.not_lt_zero k)
    rw [forall_cons fun j other => ¬ HasRoom other → (∀ k < j, ∀ other, (sock :: rest)[k]? = some other →
      fdIsSet ans sockSet (i + k) other = true → ans.Serves (i + k)) → ans.stray (i + j) = false, first]
    simp only [forall_lt_cons fun k other => fdIsSet ans sockSet (i + k) other = true → ans.Serves (i + k),
      Nat.add_zero]
    rw [serveSockets]
    dsimp only
    split_ifs with marked finished
    · have good := returns.mp finished
      simp only [good, implies_true, true_and]
      rw [List.cons_append, List.forall_mem_cons, List.forall_mem_append, and_iff_right asked, served,
        reports_marked success bits marked, later]
      exact Iff.rfl
    · have bad : ¬ ans.Serves i := fun good => finished (returns.mpr good)
      rw [List.forall_mem_cons, and_iff_right asked, served, reports_marked success bits marked]
      exact (and_iff_left fun j other _ _ reached => absurd (reached.1 marked) bad).symm
    · have quiet (outside : ¬ HasRoom sock) : ans.stray i = false := by
        rw [fdIsSet, if_neg outside] at marked
        exact Bool.eq_false_iff.mpr marked
      have plain : fdIsSet ans sockSet i sock = false := Bool.eq_false_iff.mpr marked
      simp only [plain, Bool.false_eq_true, false_imp_iff, true_and]
      rw [List.forall_mem_cons, and_iff_right asked, later]
      exact (and_iff_right quiet).symm

theorem reaches_iff (sockets : List Int) (ans : Answers) (i : Nat) :
    (∀ k < i, ∀ other, sockets[k]? = some other →
        fdIsSet ans (select ans (watched sockets)).2 k other = true → ans.Serves k) ↔ ans.Reaches sockets i := by
  constructor
  · intro all k less other here mark
    exact all k less other here ((fdIsSet_iff here ans).mpr mark)
  · intro all k less other here mark
    exact all k less other here ((fdIsSet_iff here ans).mp mark)

theorem behindSelect_backed (sockets : List Int) (ans : Answers) :
    (∀ call ∈ behindSelect sockets ans,
        call.Backed (some ((select ans (watched sockets)).1, (select ans (watched sockets)).2))) ↔
      ans.Sound sockets := by
  rw [behindSelect, Answers.Sound, ← select_idle_iff]
  cases found : ans.select with
  | none =>
    -- standard input is still in the set, and reported by no `select` that succeeded
    have failed : select ans (watched sockets) = (-1, watched sockets) := by rw [select, found]
    have stdin : STDIN_FILENO ∈ watched sockets := (mem_watched sockets _).mpr ⟨List.mem_cons_self, by decide⟩
    have other : ¬ ((-1 : Int), watched sockets).1 = 0 := by simp
    rw [failed, if_neg other, if_pos stdin]
    refine iff_of_false (fun backed => ?_) fun sound => sound.1 rfl
    obtain ⟨result, sockSet, same, success, -⟩ := backed .getchar (by simp)
    rw [Option.some.injEq, Prod.mk.injEq] at same
    omega
  | some ready =>
    have success : 0 ≤ (select ans (watched sockets)).1 := by
      rw [select, found]
      exact Int.natCast_nonneg _
    have bits : ∀ fd ∈ (select ans (watched sockets)).2, HasRoom fd := by
      intro fd member
      rw [select, found] at member
      exact ((mem_watched sockets fd).mp (List.mem_of_mem_filter member)).2
    have served := serveSockets_backed ans success bits 0 sockets
    have asked : (Call.fdIsSet STDIN_FILENO).Backed
      (some ((select ans (watched sockets)).1, (select ans (watched sockets)).2)) := trivial
    simp only [Nat.zero_add, reaches_iff] at served
    have goes : some ready ≠ none := by simp
    rw [and_iff_right goes]
    by_cases idle : (select ans (watched sockets)).1 = 0
    · rw [if_pos idle]
      exact iff_of_true (by simp) (Or.inl idle)
    · rw [if_neg idle, or_iff_right idle, ← served, List.forall_mem_append, List.forall_mem_cons, and_iff_right asked]
      apply and_iff_right
      split_ifs with marked
      · exact List.forall_mem_singleton.mpr ((reports_iff success _ _).mpr marked)
      · simp

theorem turn_reported (sockets : List Int) (ans : Answers) (past : List Call) :
    Each (fun before => Reported (past ++ before)) (turn sockets ans).2 ↔ ans.Sound sockets := by
  have front := fdSets_reported past (STDIN_FILENO :: sockets)
  have shift (before : List Call) : past ++ ((fdSets [] (STDIN_FILENO :: sockets)).2 ++
      .select (maxDesc sockets + 1) (select ans (watched sockets)).1 (select ans (watched sockets)).2 :: before) =
        past ++ (fdSets [] (STDIN_FILENO :: sockets)).2 ++
          [.select (maxDesc sockets + 1) (select ans (watched sockets)).1 (select ans (watched sockets)).2] ++
            before := by
    simp
  have selected : Reported (past ++ ((fdSets [] (STDIN_FILENO :: sockets)).2 ++ []))
      (.select (maxDesc sockets + 1) (select ans (watched sockets)).1 (select ans (watched sockets)).2) := trivial
  simp only [turn_calls, each_append, each_cons, front, selected, true_and, shift]
  rw [each_reported fun call member => (behindSelect_acts sockets ans call member).not_select, lastSelect_select]
  exact behindSelect_backed sockets ans

theorem step_reported {s : State} (gone : s ≠ .running) (sockets : List Int) (ans : Answers) (past : List Call) :
    Each (fun before => Reported (past ++ before)) ((server sockets).step ans s).2 := by
  have closes : ∀ call ∈ ((server sockets).step ans s).2, ∃ fd, call = .close fd := by
    cases s with
    | running => exact absurd rfl gone
    | stopping => simp [server, step]
    | returned | exited => simp [server, step]
  rw [each_reported]
  · intro call member
    obtain ⟨fd, rfl⟩ := closes call member
    trivial
  · intro call member
    obtain ⟨fd, rfl⟩ := closes call member
    exact id

theorem run_reported {s : State} (gone : s ≠ .running) (sockets : List Int) (inputs : List Answers) (past : List Call) :
    Each (fun before => Reported (past ++ before)) ((server sockets).run inputs s).2 := by
  induction inputs generalizing s past with
  | nil => simp
  | cons ans inputs ih =>
    have next := (step_gone gone sockets ans).1
    have later := ih next (past ++ ((server sockets).step ans s).2)
    simp only [List.append_assoc] at later
    rw [Machine.run_cons, each_append]
    exact ⟨step_reported gone sockets ans past, later⟩

theorem reported_from (sockets : List Int) (inputs : List Answers) (past : List Call) :
    Each (fun before => Reported (past ++ before)) ((server sockets).run inputs .running).2 ↔
      (server sockets).Along (fun _ s ans => s = .running → ans.Sound sockets) inputs past .running := by
  induction inputs generalizing past with
  | nil => simp [Machine.Along]
  | cons ans inputs ih =>
    have step : (server sockets).step ans .running = turn sockets ans := rfl
    have asked : (State.running = .running → ans.Sound sockets) ↔ ans.Sound sockets := forall_prop_of_true rfl
    rw [Machine.run_cons, each_append, Machine.Along, step, turn_reported, asked]
    apply and_congr_right
    intro success
    by_cases running : (turn sockets ans).1 = .running
    · have onward := ih (past ++ (turn sockets ans).2)
      simp only [List.append_assoc] at onward
      rw [running]
      exact onward
    · apply iff_of_true
      · have later := run_reported running sockets inputs (past ++ (turn sockets ans).2)
        simpa only [List.append_assoc] using later
      · exact along_gone running sockets _ inputs _

/-- The server acts only on reported readiness exactly in the runs whose turns are all sound. -/
theorem reported_iff (sockets : List Int) (inputs : List Answers) :
    Each Reported ((server sockets).run inputs .running).2 ↔
      (server sockets).Along (fun _ s ans => s = .running → ans.Sound sockets) inputs [] .running :=
  reported_from sockets inputs []

/-- The first `select` is interrupted by a signal: the server goes on as if every descriptor
were ready. -/
theorem failed_select_acts :
    ¬ Each Reported ((server [3]).run [⟨none, fun _ => 4, fun _ => [], fun _ => false⟩] .running).2 := by
  have calls : ((server [3]).run [⟨none, fun _ => 4, fun _ => [], fun _ => false⟩] .running).2 =
      [.fdSet 0, .fdSet 3, .select 4 (-1) [3, 0], .fdIsSet 0] ++
        .getchar :: [.fdIsSet 3, .accept 3 4, .recv 4 (some [])] := by
    decide
  intro each
  obtain ⟨result, sockSet, same, success, -⟩ := each _ _ _ calls
  have failed : lastSelect [.fdSet 0, .fdSet 3, .select 4 (-1) [3, 0], .fdIsSet 0] = some (-1, [3, 0]) := rfl
  rw [failed, Option.some.injEq, Prod.mk.injEq] at same
  omega

end SocketPrograms.Select
