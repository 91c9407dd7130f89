import SocketPrograms.Poll.Invariant

/-! The byte streams that `poll_server2.c` echoes. A connection's streams begin when its
descriptor is accepted; the bytes that `send` accepted are compared with the bytes that
`recv` returned. -/

namespace SocketPrograms.Poll
open Lib Table

def Call.receive (fd : Int) (bytes : List UInt8) : Call → List UInt8
  | .accept _ result => if 0 ≤ result ∧ result = fd then [] else bytes
  | .recv source got => if source = fd then bytes ++ got.getD [] else bytes
  | _ => bytes

def receivedFrom (fd : Int) (past : List Call) : List UInt8 := past.foldl (Call.receive fd) []

def Call.deliver (fd : Int) (bytes : List UInt8) : Call → List UInt8
  | .accept _ result => if 0 ≤ result ∧ result = fd then [] else bytes
  | .send dest data result => if dest = fd then bytes ++ data.take result.toNat else bytes
  | _ => bytes

def sentBack (fd : Int) (past : List Call) : List UInt8 := past.foldl (Call.deliver fd) []

def Echoes (listener : Int) (past : List Call) (t : Table) : Prop :=
  ∀ fd ∈ t.fds, fd ≠ listener → sentBack fd past = receivedFrom fd past

def AllAccepted (calls : List Call) : Prop :=
  ∀ fd data result, Call.send fd data result ∈ calls → result = data.length

/-- What is sent to a client is what was received from it just before. -/
def OwnBytes (past : List Call) : Prop :=
  ∀ before fd data result after, past = before ++ .send fd data result :: after →
    ∃ earlier, before = earlier ++ [.recv fd (some data)]

def SendAllowed (ans : Answers) : Prop :=
  0 < ans.nbytes → ans.send 0 = -1 ∨ 1 ≤ ans.send 0 ∧ ans.send 0 ≤ ans.nbytes

def Allowed (listener : Int) (past : List Call) (s : State) (ans : Answers) : Prop :=
  AcceptFresh listener past s ans ∧ SendAllowed ans

theorem receivedFrom_append (fd : Int) (past calls : List Call) :
    receivedFrom fd (past ++ calls) = calls.foldl (Call.receive fd) (receivedFrom fd past) :=
  List.foldl_append

theorem sentBack_append (fd : Int) (past calls : List Call) :
    sentBack fd (past ++ calls) = calls.foldl (Call.deliver fd) (sentBack fd past) :=
  List.foldl_append

theorem Answers.recv_of_data {ans : Answers} (stays : ans.hangsUp = false) :
    ans.recv = some ans.data ∧ ans.nbytes = ans.data.length ∧ 0 < ans.nbytes := by
  cases result : ans.recv with
  | none => simp [Answers.hangsUp, Answers.nbytes, result] at stays
  | some data =>
    have positive : 0 < ans.nbytes := by simpa [Answers.hangsUp] using stays
    exact ⟨by simp [Answers.data, result], by simp [Answers.nbytes, Answers.data, result], positive⟩

theorem allAccepted_reply (listener : Int) (ans : Answers) (i : Nat) (t : Table) (client : Int) :
    AllAccepted (.recv client ans.recv :: Program.pollServer2.replies listener ans i t client) ↔
      ans.send 0 = ans.data.length := by
  constructor
  · intro all
    exact all client ans.data (ans.send 0) (by simp [Program.replies])
  · intro all fd data result sent
    simp only [Program.replies, List.mem_cons, reduceCtorEq, Call.send.injEq, List.not_mem_nil,
      or_false, false_or] at sent
    rw [sent.2.1, sent.2.2, all]

theorem echoes_reply_iff {listener : Int} {past : List Call} {ans : Answers} (i : Nat) {t : Table} {client : Int}
    (member : client ∈ t.fds) (notListener : client ≠ listener) (stays : ans.hangsUp = false)
    (allowed : SendAllowed ans) (echoes : Echoes listener past t) :
    Echoes listener (past ++ .recv client ans.recv :: Program.pollServer2.replies listener ans i t client) t ↔
      ans.send 0 = ans.data.length := by
  obtain ⟨got, length, positive⟩ := Answers.recv_of_data stays
  have before := echoes client member notListener
  constructor
  · intro later
    have now := later client member notListener
    simp only [receivedFrom_append, sentBack_append, Program.replies, List.foldl_cons, List.foldl_nil,
      Call.receive, Call.deliver, ↓reduceIte, got, Option.getD_some, before, List.append_cancel_left_eq] at now
    have taken := congrArg List.length now
    rw [List.length_take] at taken
    rcases allowed positive with failed | ⟨low, high⟩ <;> omega
  · intro all fd present other
    have same := echoes fd present other
    by_cases own : client = fd
    · simp [receivedFrom_append, sentBack_append, Program.replies, Call.receive, Call.deliver, own, got, same, all]
    · simpa [receivedFrom_append, sentBack_append, Program.replies, Call.receive, Call.deliver, own] using same

theorem Effect.echoes_iff {listener : Int} {past calls : List Call} {ans : Answers} {i : Nat} {t : Table}
    {entry : PollFd} {s : State} (effect : Effect .pollServer2 listener ans i t entry s calls)
    (wf : WellFormed listener t) (here : t.live[i]? = some entry)
    (allowed : SendAllowed ans) (echoes : Echoes listener past t) :
    Echoes listener (past ++ calls) s.table ↔ AllAccepted calls := by
  have place := fds_getElem? here
  cases effect with
  | idle quiet => simpa [AllAccepted] using echoes
  | accepted ready own ok sane count grown =>
    have sends : AllAccepted [.accept listener ans.accept] := by simp [AllAccepted]
    refine ⟨fun _ => sends, fun _ fd member other => ?_⟩
    simp only [receivedFrom_append, sentBack_append, List.foldl_cons, List.foldl_nil, Call.receive, Call.deliver]
    split
    · rfl
    next old =>
      have known : fd ∈ t.fds := by
        simp only [fds, grown, List.map_append, List.mem_append, List.map_singleton,
          List.mem_singleton] at member
        exact member.resolve_right fun new => old ⟨ok, new.symm⟩
      exact echoes fd known other
  | refused ready own failed =>
    have sends : AllAccepted [.accept listener ans.accept] := by simp [AllAccepted]
    refine ⟨fun _ => sends, fun _ fd member other => ?_⟩
    have low : ¬0 ≤ ans.accept := by omega
    simpa [receivedFrom_append, sentBack_append, Call.receive, Call.deliver, low] using echoes fd member other
  | left ready client gone sane count removed =>
    have sends : AllAccepted [.recv entry.fd ans.recv, .close entry.fd] := by simp [AllAccepted]
    refine ⟨fun _ => sends, fun _ fd member other => ?_⟩
    have kept := ((wf.remove sane client place removed).2 fd).mp member
    simpa [receivedFrom_append, sentBack_append, Call.receive, Call.deliver, Ne.symm kept.2] using
      echoes fd kept.1 other
  | data ready client stays =>
    have notListener : entry.fd ≠ listener := fun same => by
      have first := (wf.fd_eq_listener_iff place).mp same
      omega
    have member : entry.fd ∈ t.fds := List.mem_iff_getElem?.mpr ⟨i, place⟩
    rw [allAccepted_reply]
    exact echoes_reply_iff i member notListener stays allowed echoes

theorem step_echoes_iff {listener : Int} {past : List Call} {s : State} {ans : Answers}
    (rep : Representation listener past s) (allowed : Allowed listener past s ans)
    (echoes : Echoes listener past s.table) :
    Echoes listener (past ++ ((server .pollServer2 listener).step ans s).2)
        ((server .pollServer2 listener).step ans s).1.table ↔
      AllAccepted ((server .pollServer2 listener).step ans s).2 := by
  obtain ⟨s', calls, step, moves⟩ := step_moves .pollServer2 rep.wf fun _ => (rep.freshFor allowed.1).low
  rw [step]
  cases moves with
  | quiet waits safe =>
    rw [List.append_nil]
    exact iff_of_true echoes (by simp [AllAccepted])
  | polled waiting =>
    apply iff_of_true
    · intro fd member other
      rw [report_fds] at member
      simpa [sentBack_append, receivedFrom_append, Call.deliver, Call.receive] using echoes fd member other
    · simp [AllAccepted]
  | visited busy here effect => exact effect.echoes_iff rep.wf here allowed.2 echoes

theorem allAccepted_append (first second : List Call) :
    AllAccepted (first ++ second) ↔ AllAccepted first ∧ AllAccepted second := by
  constructor
  · exact fun all => ⟨fun fd data result sent => all fd data result (List.mem_append_left _ sent),
      fun fd data result sent => all fd data result (List.mem_append_right _ sent)⟩
  · rintro ⟨left, right⟩ fd data result sent
    exact (List.mem_append.mp sent).elim (left fd data result) (right fd data result)

theorem run_echoes_iff (listener : Int) {inputs : List Answers} {past : List Call} {s : State}
    (rep : Representation listener past s) (echoes : Echoes listener past s.table)
    (allowed : (server .pollServer2 listener).Along (Allowed listener) inputs past s) :
    (server .pollServer2 listener).Always (fun past s => Echoes listener past s.table) inputs past s ↔
      AllAccepted ((server .pollServer2 listener).run inputs s).2 := by
  induction inputs generalizing past s with
  | nil => exact iff_of_true echoes (by simp [AllAccepted])
  | cons ans rest ih =>
    have step := step_echoes_iff rep allowed.1 echoes
    have rep' := rep.step (p := .pollServer2) (fun _ => allowed.1.1)
    rw [Machine.run_cons, allAccepted_append, Machine.Always]
    constructor
    · intro always
      have now := always.2.head
      exact ⟨step.mp now, (ih rep' now allowed.2).mp always.2⟩
    · intro both
      exact ⟨echoes, (ih rep' (step.mpr both.1) allowed.2).mpr both.2⟩

/-! ### Whose bytes are sent -/

theorem ownBytes_append {first second : List Call} (left : OwnBytes first) (right : OwnBytes second) :
    OwnBytes (first ++ second) := by
  intro before fd data result after split
  rcases List.append_eq_append_iff.mp split with ⟨middle, same, rest⟩ | ⟨middle, same, rest⟩
  · obtain ⟨earlier, equal⟩ := right middle fd data result after rest
    exact ⟨first ++ earlier, by rw [same, equal, List.append_assoc]⟩
  · cases middle with
    | nil =>
      obtain ⟨earlier, equal⟩ := right [] fd data result after (by simpa using rest.symm)
      simp at equal
    | cons call middle =>
      rw [List.cons_append, List.cons.injEq] at rest
      exact left before fd data result middle (by rw [same, rest.1])

theorem ownBytes_of_no_send {calls : List Call} (none : ∀ fd data result, Call.send fd data result ∉ calls) :
    OwnBytes calls := by
  intro before fd data result after split
  exact absurd (split ▸ List.mem_append_right before (List.mem_cons_self ..)) (none fd data result)

theorem step_ownBytes {listener : Int} {past : List Call} {s : State} {ans : Answers}
    (rep : Representation listener past s) (fresh : AcceptFresh listener past s ans) :
    OwnBytes ((server .pollServer2 listener).step ans s).2 := by
  obtain ⟨s', calls, step, moves⟩ := step_moves .pollServer2 rep.wf fun _ => (rep.freshFor fresh).low
  rw [step]
  cases moves with
  | quiet waits safe => exact ownBytes_of_no_send (by simp)
  | polled waiting => exact ownBytes_of_no_send (by simp)
  | visited busy here effect =>
    cases effect with
    | idle quiet => exact ownBytes_of_no_send (by simp)
    | accepted ready own ok sane count grown => exact ownBytes_of_no_send (by simp)
    | refused ready own failed => exact ownBytes_of_no_send (by simp)
    | left ready client gone sane count removed => exact ownBytes_of_no_send (by simp)
    | data ready client stays =>
      have got := (Answers.recv_of_data stays).1
      intro before fd data result after split
      cases before with
      | nil => simp at split
      | cons head before =>
        rw [List.cons_append, List.cons.injEq] at split
        cases before with
        | nil =>
          have sent := List.head_eq_of_cons_eq split.2
          simp only [Call.send.injEq] at sent
          exact ⟨[], by rw [← split.1, got, sent.1, sent.2.1]; rfl⟩
        | cons other before => simp [Program.replies] at split

theorem run_ownBytes (listener : Int) (junk : Nat → PollFd) (inputs : List Answers)
    (allowed : (server .pollServer2 listener).Along (Allowed listener) inputs [] (start listener junk)) :
    OwnBytes ((server .pollServer2 listener).run inputs (start listener junk)).2 := by
  have kept := (server .pollServer2 listener).invariant
    (fun past s => Representation listener past s ∧ OwnBytes past)
    (fun past s ans both allowed => ⟨both.1.step (p := .pollServer2) (fun _ => allowed.1),
      ownBytes_append both.2 (step_ownBytes both.1 allowed.1)⟩)
    ⟨start_representation listener junk, ownBytes_of_no_send (by simp)⟩ allowed
  simpa using kept.2

/-- The server of `poll_server2.c` is a faithful echo in every moment of a run exactly when
every `send` of the run accepts all the bytes it is given. -/
theorem echo_faithful_iff (listener : Int) (junk : Nat → PollFd) (inputs : List Answers)
    (allowed : (server .pollServer2 listener).Along (Allowed listener) inputs [] (start listener junk)) :
    ((∀ first rest, inputs = first ++ rest →
        Echoes listener ((server .pollServer2 listener).run first (start listener junk)).2
          ((server .pollServer2 listener).run first (start listener junk)).1.table) ∧
      OwnBytes ((server .pollServer2 listener).run inputs (start listener junk)).2) ↔
      AllAccepted ((server .pollServer2 listener).run inputs (start listener junk)).2 := by
  have alone : Echoes listener [] (start listener junk).table := by
    intro fd member other
    simp only [fds, start_live, List.map_singleton, List.mem_singleton] at member
    exact absurd member other
  have own := run_ownBytes listener junk inputs allowed
  have echo := run_echoes_iff listener (start_representation listener junk) alone allowed
  rw [← echo, Machine.always_iff]
  simp only [List.nil_append]
  exact and_iff_left own

def twoBytes (accepts : Int) : List Answers :=
  let ans : Answers := {
    poll := some fun k => if k = 1 then POLLIN else 0
    accept := -1
    recv := some [65, 66]
    send := fun _ => accepts
    junk := fun _ => ⟨0, 0, 0⟩ }
  [{ ans with poll := some fun _ => POLLIN }, { ans with accept := 4 }, ans, ans, ans, ans, ans]

/-- After a `send` that accepts one byte of two the client is one byte short. -/
theorem echo_loses_suffix :
    (server .pollServer2 3).Along (Allowed 3) (twoBytes 1) [] (start 3 fun _ => ⟨0, 0, 0⟩) ∧
      ¬Echoes 3 ((server .pollServer2 3).run (twoBytes 1) (start 3 fun _ => ⟨0, 0, 0⟩)).2
        ((server .pollServer2 3).run (twoBytes 1) (start 3 fun _ => ⟨0, 0, 0⟩)).1.table := by
  have send : SendAllowed ⟨none, -1, some [65, 66], fun _ => 1, fun _ => ⟨0, 0, 0⟩⟩ := fun _ => Or.inr (by decide)
  refine ⟨⟨⟨Or.inl rfl, send⟩, ⟨Or.inr (by decide), send⟩, ⟨Or.inl rfl, send⟩, ⟨Or.inl rfl, send⟩,
    ⟨Or.inl rfl, send⟩, ⟨Or.inl rfl, send⟩, ⟨Or.inl rfl, send⟩, trivial⟩, fun echoes => ?_⟩
  exact absurd (echoes 4 (by decide) (by decide)) (by decide)

theorem echo_faithful_two_bytes :
    Echoes 3 ((server .pollServer2 3).run (twoBytes 2) (start 3 fun _ => ⟨0, 0, 0⟩)).2
      ((server .pollServer2 3).run (twoBytes 2) (start 3 fun _ => ⟨0, 0, 0⟩)).1.table := by
  have send : SendAllowed ⟨none, -1, some [65, 66], fun _ => 2, fun _ => ⟨0, 0, 0⟩⟩ := fun _ => Or.inr (by decide)
  refine ((echo_faithful_iff 3 (fun _ => ⟨0, 0, 0⟩) (twoBytes 2) ?_).mpr ?_).1 (twoBytes 2) [] (by simp)
  · exact ⟨⟨Or.inl rfl, send⟩, ⟨Or.inr (by decide), send⟩, ⟨Or.inl rfl, send⟩, ⟨Or.inl rfl, send⟩,
      ⟨Or.inl rfl, send⟩, ⟨Or.inl rfl, send⟩, ⟨Or.inl rfl, send⟩, trivial⟩
  · have calls : ((server .pollServer2 3).run (twoBytes 2) (start 3 fun _ => ⟨0, 0, 0⟩)).2 =
        [.poll [3], .accept 3 4, .poll [4], .recv 4 (some [65, 66]), .send 4 [65, 66] 2] := by decide
    rw [calls]
    intro fd data result sent
    simp only [List.mem_cons, reduceCtorEq, Call.send.injEq, List.not_mem_nil, or_false, false_or] at sent
    rw [sent.2.1, sent.2.2]
    rfl

end SocketPrograms.Poll
