import SocketPrograms.Sigio.System

/-! What the server of `UDPEchoServer-SIGIO.c` delivers, however arrivals, signals and the
iterations of the handler interleave. -/

namespace SocketPrograms.Sigio
open Lib Lib.CString
variable {α : Type}

structure Kept (past : List (Seen α)) (s : System α) : Prop where
  /-- nothing is lost, repeated or reordered before the process ends -/
  conserved : s.stage ≠ .exited → echoes past ++ cut s.queue = cut (arrivals past)
  behind : s.queue <:+ arrivals past
  /-- a socket that is left alone is empty, or no signal was ever due, or an empty datagram
  ended the last call of the handler -/
  settled : s.stage = .waiting → s.signal = false →
    s.queue = [] ∨ sinceArmed past = [] ∨ ∃ clntAddr, (echoes past).getLast? = some (clntAddr, [])

theorem sinceArmed_sent (past : List (Seen α)) (echoed : List (α × Bytes)) :
    sinceArmed (past ++ echoed.map fun echo => .sent echo.1 echo.2) = sinceArmed past := by
  rw [sinceArmed_append, List.foldl_map]
  exact List.foldl_fixed' (fun _ => rfl) echoed

theorem Moves.kept {past seen : List (Seen α)} {s s' : System α} (moves : Moves s s' seen) (kept : Kept past s) :
    Kept (past ++ seen) s' := by
  cases moves with
  | still => simpa using kept
  | exits shorter quiet =>
    refine ⟨fun lives => absurd rfl lives, ?_, fun idle => by cases idle⟩
    rw [arrivals_append, quiet, List.append_nil]
    exact shorter.trans kept.behind
  | arrived pending lives =>
    have order := kept.conserved lives
    refine ⟨fun _ => ?_, ?_, ?_⟩
    · calc
        echoes (past ++ [.arrived pending]) ++ cut (s.queue ++ [pending])
            = echoes past ++ cut s.queue ++ cut [pending] := by simp
        _ = cut (arrivals past) ++ cut [pending] := by rw [order]
        _ = cut (arrivals (past ++ [.arrived pending])) := by simp
    · obtain ⟨taken, whole⟩ := kept.behind
      exact ⟨taken, by simp [← whole]⟩
    · intro idle signal
      simp only at idle signal
      simp [idle, Stage.armed] at signal
  | woken lives =>
    rw [List.append_nil]
    refine ⟨kept.conserved, kept.behind, fun idle signal => ?_⟩
    simp only at idle signal
    simp [idle, Stage.armed] at signal
  | configured next =>
    rw [List.append_nil]
    exact ⟨fun _ => kept.conserved (by simp [next]), kept.behind, fun idle => by cases idle⟩
  | armed last =>
    refine ⟨fun _ => ?_, ?_, fun _ _ => Or.inr (Or.inl ?_)⟩
    · simpa using kept.conserved (by simp [last])
    · simpa using kept.behind
    · rw [sinceArmed_append]
      rfl
  | interrupted idle pending =>
    rw [List.append_nil]
    exact ⟨fun _ => kept.conserved (by simp [idle]), kept.behind, fun waits => by cases waits⟩
  | turned busy does =>
    have order := kept.conserved (by simp [busy])
    have behind := kept.behind
    obtain ⟨stage, queue, signal⟩ := s
    cases does with
    | dry =>
      rw [List.map_nil, List.append_nil]
      exact ⟨fun _ => order, behind, fun _ _ => Or.inl rfl⟩
    | @empty clntAddr queue =>
      refine ⟨fun _ => ?_, ?_, fun _ _ => Or.inr (Or.inr ⟨clntAddr, ?_⟩)⟩
      · rw [echoes_append, echoes_sent, arrivals_append, arrivals_sent, List.append_nil, ← order]
        simp [cut]
      · rw [arrivals_append, arrivals_sent, List.append_nil]
        exact (List.suffix_cons _ queue).trans behind
      · rw [echoes_append, echoes_sent]
        exact List.getLast?_concat
    | @echoed clntAddr payload queue solid =>
      refine ⟨fun _ => ?_, ?_, fun waits => by cases waits⟩
      · rw [echoes_append, echoes_sent, arrivals_append, arrivals_sent, List.append_nil, ← order]
        simp [cut]
      · rw [arrivals_append, arrivals_sent, List.append_nil]
        exact (List.suffix_cons _ queue).trans behind

theorem kept_start : Kept [] (start : System α) :=
  ⟨fun _ => rfl, List.suffix_rfl, fun waits => by cases waits⟩

theorem run_kept (events : List (Event α)) :
    Kept ((system α).run events start).2 ((system α).run events start).1 := by
  have kept := (system α).invariant_all Kept (fun past s event kept => (step_moves event s).kept kept) events kept_start
  simpa using kept

/-- What was sent back and what waits are, in this order, the datagrams that arrived, each cut
to the buffer. A server that waits without a signal has left nothing at the socket, unless
nothing arrived since `FASYNC` was set or an empty datagram was the last one it sent back. -/
theorem delivered_in_order (events : List (Event α)) :
    let now := (system α).run events start
    (now.1.stage ≠ .exited → echoes now.2 ++ cut now.1.queue = cut (arrivals now.2)) ∧
      (now.1.stage = .waiting → now.1.signal = false →
        now.1.queue = [] ∨ sinceArmed now.2 = [] ∨ ∃ clntAddr, (echoes now.2).getLast? = some (clntAddr, [])) :=
  ⟨(run_kept events).conserved, (run_kept events).settled⟩

/-! ### The process left alone -/

def System.busy (s : System α) : Bool :=
  match s.stage with
  | .waiting => s.signal
  | .handling => true
  | .setup _ | .exited => false

def System.rank (s : System α) : Nat :=
  match s.stage with
  | .waiting => if s.signal then s.queue.length + 2 else 0
  | .handling => s.queue.length + 1 + if s.signal then 2 else 0
  | .setup _ | .exited => 0

structure Serves (s : System α) : Prop where
  armed : s.stage = .waiting ∨ s.stage = .handling
  sound : .error ∉ s.queue

theorem handlerTurn_lives {sendto : α → Bytes → Int} (full : ∀ clntAddr buf, sendto clntAddr buf = buf.length)
    {queue : List (Pending α)} (sound : .error ∉ queue) : (handlerTurn sendto queue).1 ≠ .exited := by
  cases queue with
  | nil => simp [handlerTurn]
  | cons pending queue =>
    cases pending with
    | error => exact absurd List.mem_cons_self sound
    | datagram clntAddr payload =>
      have sent : ¬ (((payload.take bufSize).length : Int) < 0) := by omega
      simp only [handlerTurn, full, if_neg sent, ne_eq, not_true_eq_false, if_false]
      split_ifs <;> simp

/-- Left alone the process never ends, and each of its iterations brings it closer to waiting. -/
theorem step_serves {sendto : α → Bytes → Int} (full : ∀ clntAddr buf, sendto clntAddr buf = buf.length)
    {s : System α} (serves : Serves s) (busy : s.busy = true) :
    Serves (step (.advance sendto) s).1 ∧
      ((step (.advance sendto) s).1.busy = true → (step (.advance sendto) s).1.rank < s.rank) := by
  have sound := serves.sound
  obtain ⟨stage, queue, signal⟩ := s
  rcases serves.armed with waits | handles
  · cases waits
    cases busy
    exact ⟨⟨Or.inr rfl, sound⟩, fun _ => by simp [step, System.advance, System.rank]⟩
  · cases handles
    have lives := handlerTurn_lives full sound
    have turned := handlerTurn_turned sendto queue lives
    simp only [step, System.advance, reduceCtorEq, if_false]
    generalize handlerTurn sendto queue = turn at turned
    cases turned with
    | dry => exact ⟨⟨Or.inl rfl, sound⟩, by cases signal <;> simp [System.busy, System.rank]⟩
    | empty =>
      have rest := fun member => sound (List.mem_cons_of_mem _ member)
      exact ⟨⟨Or.inl rfl, rest⟩, by cases signal <;> simp [System.busy, System.rank]⟩
    | echoed solid =>
      have rest := fun member => sound (List.mem_cons_of_mem _ member)
      exact ⟨⟨Or.inr rfl, rest⟩, by cases signal <;> simp [System.rank]⟩

theorem step_advance_sent (sendto : α → Bytes → Int) (s : System α) :
    ∃ echoed : List (α × Bytes), (step (.advance sendto) s).2 = echoed.map fun echo => .sent echo.1 echo.2 := by
  obtain ⟨stage, queue, signal⟩ := s
  cases stage with
  | setup left => exact ⟨[], rfl⟩
  | exited => exact ⟨[], rfl⟩
  | waiting => cases signal <;> exact ⟨[], rfl⟩
  | handling => exact ⟨(handlerTurn sendto queue).2.2, rfl⟩

theorem run_advance_sent (sendto : α → Bytes → Int) (count : Nat) (s : System α) :
    ∃ echoed : List (α × Bytes), ((system α).run (List.replicate count (.advance sendto)) s).2 =
      echoed.map fun echo => .sent echo.1 echo.2 := by
  induction count generalizing s with
  | zero => exact ⟨[], rfl⟩
  | succ count ih =>
    obtain ⟨first, now⟩ := step_advance_sent sendto s
    obtain ⟨later, rest⟩ := ih (step (.advance sendto) s).1
    refine ⟨first ++ later, ?_⟩
    rw [List.replicate_succ, Machine.run_cons, List.map_append, ← now, ← rest]
    rfl

theorem run_alone {sendto : α → Bytes → Int} (full : ∀ clntAddr buf, sendto clntAddr buf = buf.length)
    {s : System α} (serves : Serves s) :
    ∃ count ≤ s.queue.length + 4, ∃ queue,
      ((system α).run (List.replicate count (.advance sendto)) s).1 = ⟨.waiting, queue, false⟩ := by
  have bound : s.rank < s.queue.length + 4 := by
    obtain ⟨stage, queue, signal⟩ := s
    cases stage <;> cases signal <;> simp [System.rank]
  have ends := (system α).runWhile_ends System.rank (fun _ => .advance sendto) (fun _ s => Serves s)
    (fun _ s serves busy => step_serves full serves busy) (s.queue.length + 4) 0 s serves bound
  obtain ⟨-, still⟩ := @Machine.runWhile_invariant _ _ _ (system α) System.busy (fun _ => .advance sendto)
    (fun _ _ s => Serves s) (fun _ _ s serves busy => (step_serves full serves busy).1)
    (s.queue.length + 4) 0 [] s serves
  obtain ⟨count, le, same⟩ := (system α).runWhile_eq_run System.busy (fun _ => .advance sendto) (s.queue.length + 4) 0 s
  rw [List.map_const', List.length_range'] at same
  rw [same] at ends still
  refine ⟨count, le, ((system α).run (List.replicate count (.advance sendto)) s).1.queue, ?_⟩
  generalize ((system α).run (List.replicate count (.advance sendto)) s).1 = last at ends still
  obtain ⟨stage, queue, signal⟩ := last
  rcases still.armed with waits | handles
  · cases waits
    cases signal with
    | false => rfl
    | true => cases ends
  · cases handles
    cases ends

theorem cut_solid {queue : List (Pending α)} {clntAddr : α}
    (solid : ∀ pending ∈ queue, ∃ clntAddr payload, pending = .datagram clntAddr payload ∧ payload ≠ []) :
    (clntAddr, []) ∉ cut queue := by
  intro member
  obtain ⟨pending, present, handed⟩ := List.mem_filterMap.mp member
  obtain ⟨sender, payload, rfl, more⟩ := solid pending present
  simp only [Option.some.injEq, Prod.mk.injEq, List.take_eq_nil_iff] at handed
  exact handed.2.elim (by decide) more

/-- Once datagrams have stopped arriving, all of them are soon sent back: each once, to its
sender and in order. No datagram may be empty, and one must have come after `FASYNC` was set,
since those before it wait for its signal. -/
theorem all_sent_back {sendto : α → Bytes → Int} (full : ∀ clntAddr buf, sendto clntAddr buf = buf.length)
    (events : List (Event α)) :
    let now := (system α).run events start
    now.1.stage = .waiting ∨ now.1.stage = .handling →
      (∀ pending ∈ arrivals now.2, ∃ clntAddr payload, pending = .datagram clntAddr payload ∧ payload ≠ []) →
      sinceArmed now.2 ≠ [] →
        ∃ count ≤ now.1.queue.length + 4,
          let later := (system α).run (events ++ List.replicate count (.advance sendto)) start
          later.1 = ⟨.waiting, [], false⟩ ∧ echoes later.2 = cut (arrivals now.2) := by
  intro now armed solid since
  have kept : Kept now.2 now.1 := run_kept events
  have sound : .error ∉ now.1.queue := fun member => by
    obtain ⟨clntAddr, payload, same, -⟩ := solid _ (kept.behind.subset member)
    cases same
  obtain ⟨count, le, queue, final⟩ := run_alone full ⟨armed, sound⟩
  obtain ⟨echoed, sent⟩ := run_advance_sent sendto count now.1
  have both : (system α).run (events ++ List.replicate count (.advance sendto)) start =
      (⟨.waiting, queue, false⟩, now.2 ++ echoed.map fun echo => .sent echo.1 echo.2) := by
    rw [Machine.run_append, ← sent, ← final]
  have later := run_kept (events ++ List.replicate count (.advance sendto))
  have same : arrivals (now.2 ++ echoed.map fun echo => .sent echo.1 echo.2) = arrivals now.2 := by
    rw [arrivals_append, arrivals_sent, List.append_nil]
  rw [both] at later
  have order := later.conserved (by simp)
  rw [same] at order
  have empty : queue = [] := by
    rcases later.settled rfl rfl with drained | early | ⟨clntAddr, last⟩
    · exact drained
    · exact absurd (sinceArmed_sent now.2 echoed ▸ early) since
    · have member : (clntAddr, []) ∈ cut (arrivals now.2) := by
        rw [← order]
        exact List.mem_append_left _ (List.mem_of_getLast? last)
      exact absurd member (cut_solid solid)
  refine ⟨count, le, ?_⟩
  rw [both, empty]
  refine ⟨rfl, ?_⟩
  simpa [empty, cut] using order

def threeDatagrams : List (Event Nat) :=
  [.arrive (.datagram 1 [5]), .configure 0, .configure 0, .configure 0, .configure 0, .arrive (.datagram 2 [7, 7]),
    .advance fun _ buf => buf.length, .advance fun _ buf => buf.length, .arrive (.datagram 3 [8])]

theorem all_sent_back_three :
    ∃ count ≤ 6,
      let later := (system Nat).run (threeDatagrams ++ List.replicate count (.advance fun _ buf => buf.length)) start
      later.1 = ⟨.waiting, [], false⟩ ∧ echoes later.2 = [(1, [5]), (2, [7, 7]), (3, [8])] :=
  all_sent_back (fun _ _ => rfl) threeDatagrams (by decide) (by simp [threeDatagrams, start, system, step,
    System.configure, System.advance, System.raise, handlerTurn, arrivals, bufSize, Stage.armed]) (by decide)

/-! ### A call of the handler -/

def DuringCall (_ : List (Seen α)) (s : System α) (_ : Event α) : Prop := s.stage = .handling

def Event.answer : Event α → Option (α → Bytes → Int)
  | .advance sendto => some sendto
  | _ => none

def answers (events : List (Event α)) (k : Nat) : α → Bytes → Int :=
  (events.filterMap Event.answer).getD k fun _ _ => -1

theorem sigioHandler_turn {sendto : Nat → α → Bytes → Int} {pending : Pending α} {queue left : List (Pending α)}
    {stage : Stage} {sent : List (α × Bytes)} (turn : handlerTurn (sendto 0) (pending :: queue) = (stage, left, sent))
    (more : List (Pending α)) :
    sigioHandler sendto (pending :: queue ++ more) =
      if stage = .handling then
        { sigioHandler (fun k => sendto (k + 1)) (left ++ more) with
          sent := sent ++ (sigioHandler (fun k => sendto (k + 1)) (left ++ more)).sent }
      else ⟨sent, left ++ more, if stage = .exited then .exited else .returned⟩ := by
  cases pending with
  | error =>
    cases turn
    rfl
  | datagram clntAddr payload =>
    simp only [handlerTurn, sigioHandler, List.cons_append] at turn ⊢
    split_ifs at turn ⊢ <;> cases turn <;> simp_all

theorem step_handling {sendto : α → Bytes → Int} {queue left : List (Pending α)} {stage : Stage}
    {sent : List (α × Bytes)} (turn : handlerTurn sendto queue = (stage, left, sent)) (signal : Bool) :
    (system α).step (.advance sendto) ⟨.handling, queue, signal⟩ =
      (⟨stage, left, signal⟩, sent.map fun echo => .sent echo.1 echo.2) := by
  simp [system, step, System.advance, turn]

/-- Whatever arrives while the handler runs, its call does what it would do in one go on all
that has arrived when it ends. -/
theorem handler_atomic (queue : List (Pending α)) (signal : Bool) (events : List (Event α)) :
    let after := (system α).run events ⟨.handling, queue, signal⟩
    (system α).Along DuringCall events [] ⟨.handling, queue, signal⟩ → after.1.stage ≠ .handling →
      sigioHandler (answers events) (queue ++ arrivals after.2) =
        ⟨echoes after.2, after.1.queue, if after.1.stage = .exited then .exited else .returned⟩ := by
  generalize ([] : List (Seen α)) = past
  induction events generalizing queue signal past with
  | nil => exact fun _ stopped => absurd rfl stopped
  | cons event rest ih =>
    intro after during stopped
    obtain ⟨-, onward⟩ := during
    cases event with
    | arrive pending =>
      have call := ih (queue ++ [pending]) _ _ onward stopped
      rw [List.append_assoc] at call
      exact call
    | wake => exact ih queue _ _ onward stopped
    | configure result => exact ih queue signal _ onward stopped
    | advance sendto =>
      cases queue with
      | nil =>
        -- `EWOULDBLOCK` ends the call, so this was its last event
        cases rest with
        | nil => rfl
        | cons event rest => cases onward.1
      | cons pending queue =>
        rcases turn : handlerTurn sendto (pending :: queue) with ⟨stage, left, sent⟩
        have first : handlerTurn (answers (.advance sendto :: rest) 0) (pending :: queue) = (stage, left, sent) := turn
        have later : (fun k => answers (.advance sendto :: rest) (k + 1)) = answers rest := rfl
        simp only [after, Machine.run_cons, step_handling turn] at onward stopped ⊢
        rw [sigioHandler_turn first, later, arrivals_append, echoes_append, arrivals_sent, echoes_sent, List.nil_append]
        by_cases again : stage = .handling
        · subst again
          rw [if_pos rfl, ih left signal _ onward stopped]
        · rw [if_neg again]
          cases rest with
          | nil =>
            change (⟨sent, left ++ [], _⟩ : Outcome α) = ⟨sent ++ [], left, _⟩
            rw [List.append_nil, List.append_nil]
            rfl
          | cons event rest => exact absurd onward.1 again

def twoAlike : List (Event Nat) :=
  [.arrive (.datagram 1 [7]), .advance fun _ buf => buf.length, .advance fun _ _ => -1]

theorem handler_atomic_alike :
    let after := (system Nat).run twoAlike ⟨.handling, [.datagram 1 [7]], false⟩
    after = (⟨.exited, [], true⟩, [.arrived (.datagram 1 [7]), .sent 1 [7]]) ∧
      sigioHandler (answers twoAlike) [.datagram 1 [7], .datagram 1 [7]] = ⟨echoes after.2, after.1.queue, .exited⟩ := by
  refine ⟨by decide, ?_⟩
  exact handler_atomic [.datagram 1 [7]] false twoAlike ⟨rfl, rfl, rfl, trivial⟩ (by decide)

end SocketPrograms.Sigio
