import SocketPrograms.Vote.Survival
import SocketPrograms.Vote.Reply

/-! The vote client's `main` and its exchange with the server, one client after another. The
streams are reliable and in order; what the buffers of either program hold at first is
arbitrary. -/

namespace SocketPrograms.Vote
open Lib CString

structure ClientRun where
  candidate : Int32
  inRange : InRange candidate
  isInquiry : Bool
  outbuf : WireBuf
  inbuf : WireBuf
  serverInBuf : WireBuf
  serverOutBuf : Nat → WireBuf

/-- How a run of the client ends. `size` is what `GetNextMsg` returned. -/
inductive Report where
  | exited
  | readBehindBuffer
  | storedBehindBuffer
  | decodeError (size : Int)
  | received (size : Int) (vi : VoteInfo)
deriving DecidableEq, Repr

namespace ClientRun

def vi (run : ClientRun) : VoteInfo := ⟨0, run.candidate, run.isInquiry, false⟩

def request (run : ClientRun) : Option (Int × Bytes) := do
  let (reqSize, outbuf) ← encode run.vi run.outbuf.1 MAX_WIRE_SIZE
  return putMsg outbuf reqSize

/-- `GetNextMsg` and `Decode` of the response; the client does not test the size. -/
def response (run : ClientRun) (stream : Bytes) : Report :=
  match getNextMsg stream run.inbuf.1 MAX_WIRE_SIZE with
  | .exited => .exited
  | .returned respSize inbuf _ =>
    match decode inbuf run.vi with
    | none => .readBehindBuffer
    | some (false, _, _) => .decodeError respSize
    | some (true, vi, _) => .received respSize vi

def connection (run : ClientRun) (stream : Bytes) : Connection :=
  ⟨stream, run.serverInBuf, run.serverOutBuf⟩

end ClientRun

def Event.bytes : Event → Bytes
  | .sent bytes => bytes
  | _ => []

def exchange (run : ClientRun) (s : State) : State × List Report :=
  match s.phase with
  | .accepting =>
    match run.request with
    | none => (s, [.storedBehindBuffer])
    | some (rv, stream) =>
      let served := connections.step (run.connection stream) s
      (served.1, [if rv < 0 then .exited else run.response (served.2.flatMap Event.bytes)])
  | _ => (s, [.exited])

def exchanges : Machine ClientRun State Report := ⟨exchange⟩

def votesAmong (c : Int32) (runs : List ClientRun) : Nat :=
  runs.countP fun run => !run.isInquiry && run.candidate = c

/-- Every client receives a message, and in it its own candidate and kind with the number of
votes so far. -/
def AllServed (runs : List ClientRun) : Prop :=
  ∀ before run after, runs = before ++ run :: after →
    ∃ size > 0, (exchanges.step run (exchanges.run before start).1).2 =
      [.received size ⟨UInt64.ofNat (votesAmong run.candidate (before ++ [run])),
        run.candidate, run.isInquiry, true⟩]

/-- What the server sends is one line that starts with a count. -/
def ReplyLine (bytes : Bytes) : Prop :=
  ∃ text, bytes = text ++ [DELIM] ∧ DELIM ∉ text ∧ text.length < MAX_WIRE_SIZE ∧ StartsWithCount text

theorem Turn.replyLine {counts : List UInt64} {stream inBuf : Bytes} {s : State} {events : List Event}
    (turn : Turn counts stream inBuf s events) {bytes : Bytes} (sent : Event.sent bytes ∈ events) :
    ReplyLine bytes := by
  cases turn with
  | exited | readBehind | finished | parseError | ignored | refused => simp at sent
  | @replied payload later msg reply counts' rest left behind mSize request zero counted shorter room size clean =>
    obtain rfl := by simpa using sent
    subst size
    have head := length_encodeHead reply
    have count := length_encodeCount reply
    refine ⟨_, rfl, clean, ?_, startsWithCount_take reply behind⟩
    simp only [List.length_take, MAX_WIRE_SIZE]
    omega

theorem step_replyLines {past : List Event} {s : State} (acc : Accounted past s) (arrival : Arrival) :
    ∀ bytes, Event.sent bytes ∈ (server.step arrival s).2 → ReplyLine bytes := by
  intro bytes sent
  cases here : s.phase with
  | serving stream inBuf => exact (acc.turn here arrival).replyLine sent
  | accepting => simp [server, serverOn, stepOn, here] at sent
  | stopped why => simp [server, serverOn, stepOn, here] at sent

theorem connection_replyLines {past : List Event} {s : State} (acc : Accounted past s) (conn : Connection) :
    ∀ bytes, Event.sent bytes ∈ (connections.step conn s).2 → ReplyLine bytes := by
  obtain ⟨arrivals, same⟩ := connection_stretch conn s
  have fresh : (∃ past, Accounted past s) ∧
      ∀ bytes, Event.sent bytes ∈ ([] : List Event) → ReplyLine bytes := ⟨⟨past, acc⟩, by simp⟩
  have kept := server.invariant_all
    (fun events s => (∃ past, Accounted past s) ∧ ∀ bytes, Event.sent bytes ∈ events → ReplyLine bytes)
    (fun events s arrival ⟨⟨past, acc⟩, lines⟩ => ⟨⟨_, acc.step arrival⟩, fun bytes sent =>
      (List.mem_append.mp sent).elim (lines bytes) (step_replyLines acc arrival bytes)⟩) arrivals fresh
  rw [same]
  simpa using kept.2

theorem replyLines_first {events : List Event}
    (lines : ∀ bytes, Event.sent bytes ∈ events → ReplyLine bytes) :
    events.flatMap Event.bytes = [] ∨
      ∃ text rest, events.flatMap Event.bytes = text ++ DELIM :: rest ∧ DELIM ∉ text ∧
        text.length < MAX_WIRE_SIZE ∧ StartsWithCount text := by
  induction events with
  | nil => exact Or.inl rfl
  | cons event events ih =>
    have later := ih fun bytes member => lines bytes (List.mem_cons_of_mem _ member)
    cases event with
    | sent bytes =>
      obtain ⟨text, rfl, clean, short, count⟩ := lines bytes (List.mem_cons_self ..)
      exact Or.inr ⟨text, events.flatMap Event.bytes, by simp [Event.bytes], clean, short, count⟩
    | handed payload left => simpa [Event.bytes] using later
    | processed msg reply => simpa [Event.bytes] using later
    | parseError => simpa [Event.bytes] using later
    | putError => simpa [Event.bytes] using later
    | clientFinished => simpa [Event.bytes] using later

theorem response_not_received (run : ClientRun) {stream : Bytes}
    (lines : stream = [] ∨ ∃ text rest, stream = text ++ DELIM :: rest ∧ DELIM ∉ text ∧
      text.length < MAX_WIRE_SIZE ∧ StartsWithCount text)
    {size : Int} (positive : 0 < size) (vi : VoteInfo) : run.response stream ≠ .received size vi := by
  have room := Nat.le_of_eq run.inbuf.2.symm
  rcases lines with rfl | ⟨text, rest, rfl, clean, short, count⟩
  · have ended : getNextMsg [] run.inbuf.1 MAX_WIRE_SIZE = .returned (-1) run.inbuf.1 [] := rfl
    simp only [ClientRun.response, ended]
    split <;> simp
    intro negative
    omega
  · obtain ⟨left, rejected⟩ := decode_startsWithCount (count.append (run.inbuf.1.drop text.length)) run.vi
    simp only [ClientRun.response, getNextMsg_line room rest clean short]
    rw [received, rejected]
    simp

theorem exchange_accounted {past : List Event} {s : State} (acc : Accounted past s) (run : ClientRun) :
    ∃ past', Accounted past' (exchanges.step run s).1 := by
  obtain ⟨counts, phase⟩ := s
  cases phase with
  | serving stream inBuf => exact ⟨past, acc⟩
  | stopped why => exact ⟨past, acc⟩
  | accepting =>
    simp only [exchanges, exchange]
    split
    · exact ⟨past, acc⟩
    · exact ⟨_, acc.connection _⟩

theorem exchange_not_received {past : List Event} {s : State} (acc : Accounted past s) (run : ClientRun)
    {size : Int} (positive : 0 < size) (vi : VoteInfo) : Report.received size vi ∉ (exchanges.step run s).2 := by
  obtain ⟨counts, phase⟩ := s
  cases phase with
  | serving stream inBuf => simp [exchanges, exchange]
  | stopped why => simp [exchanges, exchange]
  | accepting =>
    simp only [exchanges, exchange]
    split
    · simp
    next rv stream requested =>
      have lines := connection_replyLines acc (run.connection stream)
      have other := response_not_received run (replyLines_first lines) positive vi
      split_ifs
      · simp
      · simpa using Ne.symm other

theorem exchanges_not_received (runs : List ClientRun) {size : Int} (positive : 0 < size) (vi : VoteInfo) :
    Report.received size vi ∉ (exchanges.run runs start).2 := by
  have none : (∃ past, Accounted past start) ∧ Report.received size vi ∉ ([] : List Report) :=
    ⟨⟨[], start_accounted⟩, by simp⟩
  have kept := exchanges.invariant_all
    (fun reports s => (∃ past, Accounted past s) ∧ Report.received size vi ∉ reports)
    (fun reports s run ⟨⟨past, acc⟩, old⟩ => ⟨exchange_accounted acc run, by
      simpa [old] using exchange_not_received acc run positive vi⟩)
    runs none
  simpa using kept.2

/-- The exchange works for no sequence of runs but the empty one, and in every sequence it
fails for every run. -/
theorem allServed_iff (runs : List ClientRun) :
    (AllServed runs ↔ runs = []) ∧
      ∀ size > 0, ∀ vi, Report.received size vi ∉ (exchanges.run runs start).2 := by
  refine ⟨⟨fun served => ?_, ?_⟩, fun size positive vi => exchanges_not_received runs positive vi⟩
  · cases runs with
    | nil => rfl
    | cons run runs =>
      obtain ⟨size, positive, received⟩ := served [] run runs rfl
      exact absurd (received ▸ List.mem_singleton.mpr rfl) (exchange_not_received start_accounted run positive _)
  · rintro rfl before run after split
    simp at split

def firstVote : ClientRun := ⟨4, by decide, false, zeros, zeros, zeros, fun _ => zeros⟩

theorem firstVote_not_served : ¬ AllServed [firstVote] := by
  intro served
  obtain ⟨size, -, received⟩ := served [] firstVote [] rfl
  have rejected : (exchanges.step firstVote start).2 = [.decodeError 14] := by decide +kernel
  rw [Machine.run_nil, rejected] at received
  simp at received

end SocketPrograms.Vote
