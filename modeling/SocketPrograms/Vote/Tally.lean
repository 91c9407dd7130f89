import SocketPrograms.Vote.Turn

/-! The counters of the vote server against the history of the messages it processed. -/

namespace SocketPrograms.Vote
open Lib CString

def RightReply (past : List Event) (msg : VoteInfo) (reply : Option VoteInfo) : Prop :=
  if msg.isResponse then reply = none
  else if InRange msg.candidate then
    reply = some { msg with isResponse := true, count := UInt64.ofNat (votesFor msg.candidate.toInt past) }
  else msg.count = 0 ∧ reply = some { msg with isResponse := true }

/-- A message processed after `before` is answered as it should be. -/
def Answered (before : List Event) : Event → Prop
  | .processed msg reply => RightReply (before ++ [.processed msg reply]) msg reply
  | _ => True

structure Accounted (past : List Event) (s : State) : Prop where
  exact : Exact past s.counts
  room : ∀ stream inBuf, s.phase = .serving stream inBuf → inBuf.length = MAX_WIRE_SIZE
  inside : s.phase ≠ .stopped .badIndex ∧ s.phase ≠ .stopped .storedBehindBuffer
  replies : Each Answered past

theorem votesFor_append (c : Int) (past events : List Event) :
    votesFor c (past ++ events) = votesFor c past + votesFor c events :=
  List.countP_append

theorem Exact.quiet {past events : List Event} {counts : List UInt64} (right : Exact past counts)
    (quiet : ∀ c, votesFor c events = 0) : Exact (past ++ events) counts :=
  ⟨right.1, fun c bound => by rw [votesFor_append, quiet, Nat.add_zero, right.2 c bound]⟩

theorem Exact.counted {past : List Event} {counts counts' : List UInt64} {msg reply : VoteInfo}
    (right : Exact past counts) (counted : Counted counts counts' msg reply) (sent : Option VoteInfo) :
    Exact (past ++ [.processed msg sent]) counts' := by
  refine ⟨counted.size.trans right.1, fun c bound => ?_⟩
  rw [counted.slots c bound, right.2 c bound, votesFor_append]
  have one : votesFor c [.processed msg sent] = if (Event.processed msg none).votes c then 1 else 0 := by
    simp [votesFor, Event.votes]
  rw [one]
  cases (Event.processed msg none).votes c <;> simp

theorem Counted.rightReply {past : List Event} {counts counts' : List UInt64} {msg reply : VoteInfo}
    (counted : Counted counts counts' msg reply) (request : msg.isResponse = false) (zero : msg.count = 0)
    (right : Exact past counts') : RightReply past msg (some reply) := by
  rw [RightReply, if_neg (by simp [request])]
  split_ifs with range
  · obtain ⟨c, here⟩ := Int.eq_ofNat_of_zero_le range.1
    have bound : (c : Int) ≤ MAX_CANDIDATE := here ▸ range.2
    have stored := counted.inside c here bound
    rw [right.2 c bound, Option.some.injEq] at stored
    rw [counted.rest, here, stored]
  · refine ⟨zero, ?_⟩
    rw [counted.rest, counted.outside range]

theorem Turn.accounted {past events : List Event} {counts : List UInt64} {stream inBuf : Bytes} {s : State}
    (turn : Turn counts stream inBuf s events) (exact : Exact past counts)
    (room : inBuf.length = MAX_WIRE_SIZE) (replies : Each Answered past) : Accounted (past ++ events) s := by
  have handed (payload : Bytes) (later : Nat) : Exact (past ++ [.handed payload later]) counts :=
    exact.quiet fun _ => rfl
  cases turn with
  | exited => simpa using (⟨exact, by simp, by simp, replies⟩ : Accounted past ⟨counts, .stopped .exited⟩)
  | readBehind payload later => exact ⟨handed payload later, by simp, by simp, by simp [replies, Answered]⟩
  | finished => exact ⟨exact.quiet fun _ => rfl, by simp, by simp, by simp [replies, Answered]⟩
  | parseError payload later => exact ⟨exact.quiet fun _ => rfl, by simp, by simp, by simp [replies, Answered]⟩
  | ignored payload later response shorter same =>
    refine ⟨exact.quiet fun c => by simp [votesFor, Event.votes, response], ?_, by simp, ?_⟩
    · intro stream' inBuf' here
      obtain ⟨rfl, rfl⟩ := by simpa using here
      exact same.trans room
    · simp [replies, Answered, RightReply, response]
  | @refused payload later msg reply counts' request zero counted =>
    have now := (handed payload later).counted counted (some reply)
    have answered := counted.rightReply request zero now
    rw [List.append_cons, List.append_cons]
    exact ⟨now.quiet fun _ => rfl, by simp, by simp, by simpa [replies, Answered] using answered⟩
  | @replied payload later msg reply counts' rest left behind mSize request zero counted shorter same size clean =>
    have now := (handed payload later).counted counted (some reply)
    have answered := counted.rightReply request zero now
    rw [List.append_cons, List.append_cons]
    refine ⟨now.quiet fun _ => rfl, ?_, by simp, by simpa [replies, Answered] using answered⟩
    intro stream' inBuf' here
    obtain ⟨rfl, rfl⟩ := by simpa using here
    exact same.trans room

theorem Accounted.turn {past : List Event} {s : State} (acc : Accounted past s) {stream inBuf : Bytes}
    (here : s.phase = .serving stream inBuf) (arrival : Arrival) :
    Turn s.counts stream inBuf (server.step arrival s).1 (server.step arrival s).2 := by
  obtain ⟨counts, phase⟩ := s
  obtain rfl : phase = .serving stream inBuf := here
  exact serve_turn arrival.outBuf acc.exact.1 (acc.room _ _ rfl)

theorem Accounted.step {past : List Event} {s : State} (acc : Accounted past s) (arrival : Arrival) :
    Accounted (past ++ (server.step arrival s).2) (server.step arrival s).1 := by
  obtain ⟨counts, phase⟩ := s
  cases phase with
  | accepting =>
    refine ⟨by simpa [server, serverOn, stepOn] using acc.exact, ?_, by simp [server, serverOn, stepOn], ?_⟩
    · intro stream inBuf here
      obtain ⟨-, rfl⟩ := by simpa [server, serverOn, stepOn] using here
      exact arrival.inBuf.2
    · simpa [server, serverOn, stepOn] using acc.replies
  | serving stream inBuf => exact (acc.turn rfl arrival).accounted acc.exact (acc.room _ _ rfl) acc.replies
  | stopped why => simpa [server, serverOn, stepOn] using acc

theorem start_accounted : Accounted [] Vote.start := by
  refine ⟨⟨by simp [Vote.start], fun c bound => ?_⟩, by simp [Vote.start], by simp [Vote.start], each_nil _⟩
  have inside : c < (MAX_CANDIDATE + 1).toNat := by omega
  exact List.getElem?_replicate_of_lt inside

theorem Accounted.run {past : List Event} {s : State} (acc : Accounted past s) (arrivals : List Arrival) :
    Accounted (past ++ (server.run arrivals s).2) (server.run arrivals s).1 :=
  server.invariant_all Accounted (fun _ _ arrival acc => acc.step arrival) arrivals acc

theorem Accounted.connection {past : List Event} {s : State} (acc : Accounted past s) (conn : Connection) :
    Accounted (past ++ (connections.step conn s).2) (connections.step conn s).1 := by
  obtain ⟨arrivals, same⟩ := connection_stretch conn s
  rw [same]
  exact acc.run arrivals

theorem Turn.unchanged {counts : List UInt64} {stream inBuf : Bytes} {s : State} {events : List Event}
    (turn : Turn counts stream inBuf s events) {msg : VoteInfo} {reply : Option VoteInfo}
    (member : Event.processed msg reply ∈ events) :
    (msg.isResponse = true ∨ msg.isInquiry = true ∨ ¬ InRange msg.candidate → s.counts = counts) ∧
      (msg.isResponse = true → ∃ payload later, events = [.handed payload later, .processed msg none]) := by
  cases turn with
  | exited | readBehind | finished | parseError => simp at member
  | ignored payload later response shorter room =>
    obtain ⟨rfl, rfl⟩ := by simpa using member
    exact ⟨fun _ => rfl, fun _ => ⟨payload, later, rfl⟩⟩
  | refused payload later request zero counted
  | replied payload later request zero counted shorter room size clean =>
    obtain ⟨rfl, rfl⟩ := by simpa using member
    exact ⟨fun idle => counted.idle (by simpa [request] using idle), by simp [request]⟩

/-! ### What is processed -/

/-- The next message of the connection is one that `Decode` accepts. -/
def Decodes (s : State) (msg : VoteInfo) : Prop :=
  ∃ stream inBuf mSize buf rest left, s.phase = .serving stream inBuf ∧
    getNextMsg stream inBuf MAX_WIRE_SIZE = .returned mSize buf rest ∧ 0 < mSize ∧
    decode buf VoteInfo.zero = some (true, msg, left)

/-- What becomes of the record that goes to `Encode`. -/
def answer (outBuf : Bytes) : Option VoteInfo → List Event
  | none => []
  | some w =>
    match encode w outBuf MAX_WIRE_SIZE with
    | none => []
    | some (mSize, out) =>
      if (putMsg out mSize).1 < 0 then [.putError, .clientFinished] else [.sent (putMsg out mSize).2]

theorem respond_events {counts : List UInt64} (size : counts.length = 1001) (rest left : Bytes) (msg : VoteInfo)
    (outBuf : Bytes) :
    ∃ reply, (respond counts rest left msg outBuf).2 = .processed msg reply :: answer outBuf reply := by
  rw [respond_eq]
  cases request : msg.isResponse with
  | true => exact ⟨none, rfl⟩
  | false =>
    obtain ⟨counts', reply, tallied, -⟩ := tally_counted size request
    refine ⟨some reply, ?_⟩
    rw [if_neg (by decide), tallied]
    dsimp only [answer]
    cases encode reply outBuf MAX_WIRE_SIZE with
    | none => rfl
    | some encoded =>
      dsimp only
      split_ifs <;> rfl

theorem Decodes.events {s : State} {msg : VoteInfo} (decodes : Decodes s msg) (size : s.counts.length = 1001)
    (arrival : Arrival) : ∃ payload later reply, (server.step arrival s).2 =
      .handed payload later :: .processed msg reply :: answer arrival.outBuf.1 reply := by
  obtain ⟨stream, inBuf, mSize, buf, rest, left, here, got, positive, done⟩ := decodes
  obtain ⟨reply, responded⟩ := respond_events size rest left msg arrival.outBuf.1
  refine ⟨buf.take mSize.toNat, rest.length, reply, ?_⟩
  have turn : server.step arrival s = serve s.counts stream inBuf arrival.outBuf.1 := by
    simp [server, serverOn, stepOn, serve, here]
  rw [turn, serve_eq, got]
  dsimp only
  rw [if_pos positive, done, ← responded]

theorem decodes_of_processed {past : List Event} {s : State} (acc : Accounted past s) {arrival : Arrival}
    {msg : VoteInfo} {reply : Option VoteInfo} (member : .processed msg reply ∈ (server.step arrival s).2) :
    Decodes s msg := by
  obtain ⟨counts, phase⟩ := s
  cases phase with
  | accepting => simp [server, serverOn, stepOn] at member
  | stopped why => simp [server, serverOn, stepOn] at member
  | serving stream inBuf =>
    have turn : server.step arrival ⟨counts, .serving stream inBuf⟩ = serve counts stream inBuf arrival.outBuf.1 := rfl
    rw [turn, serve_eq] at member
    cases got : getNextMsg stream inBuf MAX_WIRE_SIZE with
    | exited => simp [got] at member
    | returned mSize buf rest =>
      simp only [got] at member
      split_ifs at member with positive
      · cases done : decode buf VoteInfo.zero with
        | none => simp [done] at member
        | some out =>
          obtain ⟨result, v, left⟩ := out
          cases result with
          | false => simp [done] at member
          | true =>
            simp only [done] at member
            obtain ⟨s', events, responded, response⟩ := respond_response rest left v arrival.outBuf acc.exact.1
            rw [responded] at member
            have own : msg = v := by cases response <;> simp at member <;> exact member.1
            exact ⟨stream, inBuf, mSize, buf, rest, left, rfl, got, positive, own ▸ done⟩
      · simp at member

/-- The accounting of the votes in every run of the server: no access outside the counters, every
counter the number of votes so far, every reply right, no other message counted, and what is
processed and answered is what `Decode` accepts. -/
theorem tally_accounting (arrivals : List Arrival) :
    let now := server.run arrivals Vote.start
    now.1.phase ≠ .stopped .badIndex ∧ Exact now.2 now.1.counts ∧ Each Answered now.2 ∧
      ∀ arrival msg,
        (∀ reply, Event.processed msg reply ∈ (server.step arrival now.1).2 → Decodes now.1 msg ∧
          (msg.isResponse = true ∨ msg.isInquiry = true ∨ ¬ InRange msg.candidate →
            (server.step arrival now.1).1.counts = now.1.counts) ∧
          (msg.isResponse = true → ∃ payload later,
            (server.step arrival now.1).2 = [.handed payload later, .processed msg none])) ∧
        (Decodes now.1 msg → ∃ payload later reply, (server.step arrival now.1).2 =
          .handed payload later :: .processed msg reply :: answer arrival.outBuf.1 reply) := by
  intro now
  have acc : Accounted now.2 now.1 := start_accounted.run arrivals
  refine ⟨acc.inside.1, acc.exact, acc.replies, fun arrival msg => ⟨fun reply member => ?_, fun decodes => ?_⟩⟩
  · have decodes := decodes_of_processed acc member
    obtain ⟨stream, inBuf, -, -, -, -, here, -⟩ := id decodes
    exact ⟨decodes, (acc.turn here arrival).unchanged member⟩
  · exact decodes.events acc.exact.1 arrival

end SocketPrograms.Vote
