import SocketPrograms.Setup.Client
import SocketPrograms.Vote.Exchange
import SocketPrograms.Vote.Requests

/-! The vote client's `main` from its arguments on, and elections: clients one after another, with
what both programs print. -/

namespace SocketPrograms.Vote
open Lib CString Format

def literal (s : String) : Bytes := ascii s.toList

inductive Errno where
  | badDescriptor
  /-- left there by some earlier call -/
  | earlier
deriving DecidableEq, Repr

inductive Ended where
  | returned
  /-- `ExitWithUserMsg` -/
  | userMsg (msg detail : Bytes)
  /-- `ExitWithSystemMsg` -/
  | systemMsg (msg : Bytes) (errno : Errno)
  /-- an access behind a buffer -/
  | undefined
deriving DecidableEq, Repr

structure Output where
  stdout : Bytes
  stderr : Bytes
  ended : Ended
deriving DecidableEq, Repr

/-- A run of the client: its arguments, what `getaddrinfo` gives and how the calls for the addresses
end, the segments in which the server reads what the client sends, and the buffers that both find. -/
structure Invocation (α : Type) where
  argv : List Bytes
  /-- the text of `gai_strerror`, or the addresses -/
  lookup : Except Bytes (List (Setup.Addr α))
  segments : Bytes → List Segment
  whole : ∀ bytes, (segments bytes).flatMap Segment.bytes = bytes
  outbuf : WireBuf
  inbuf : WireBuf
  serverInBuf : WireBuf
  serverOutBuf : Nat → WireBuf

section arguments
variable {α : Type}

/-- `SetupClient` and `fdopen`, which fails on a descriptor that is closed. -/
def connected : Except Bytes (List (Setup.Addr α)) → Except Ended Unit
  | .error text => .error (.userMsg (literal "getaddrinfo() failed") text)
  | .ok list =>
    let (sock, calls) := Setup.setupClient list
    match Setup.start sock with
    | .exited => .error (.userMsg (literal "SetupClient() failed") (literal "unable to connect"))
    | .fdopen sock =>
      match Setup.leftOpen calls sock.toNat with
      | .closed => .error (.systemMsg (literal "fdopen() failed") .badDescriptor)
      | _ => .ok ()

def arguments (argv : List Bytes) (lookup : Except Bytes (List (Setup.Addr α))) :
    Except Ended {r : Request // InRange r.candidate} :=
  if argv.length < 4 ∨ 5 < argv.length then
    .error (.userMsg (literal "Parameter(s)") (literal "<Server> <Port/Service> <Candidate> [I]"))
  else if valid : InRange (atoi (argv.getD 3 [])) then do
    connected lookup
    return ⟨⟨atoi (argv.getD 3 []), 4 < argv.length && argv.getD 4 [] = literal "I"⟩, valid⟩
  else .error (.userMsg (literal "Candidate # not valid") (argv.getD 3 []))

end arguments

/-- `"Sending %lu-byte %s for candidate %d...\n"` -/
def sending (r : Request) (reqSize : Nat) : Bytes :=
  literal "Sending " ++ decimal reqSize ++ literal "-byte " ++
    (if r.isInquiry then literal "inquiry" else literal "vote") ++
    literal " for candidate " ++ signedDecimal r.candidate.toInt ++ literal "...\n"

def receivedText (vi : VoteInfo) : Bytes :=
  literal "Received:\n" ++ (if vi.isResponse then literal " Response to " else []) ++
    (if vi.isInquiry then literal "inquiry " else literal "vote ") ++ literal "for candidate " ++
    signedDecimal vi.candidate.toInt ++ literal "\n" ++
    (if vi.isResponse then literal " count = " ++ decimal vi.count.toNat ++ literal "\n" else [])

def ClientRun.finish (run : ClientRun) (stream : Bytes) : Bytes × Bytes × Ended :=
  match run.response stream with
  | .exited => ([], [], .userMsg (literal "GetNextMsg()") (literal "Stream ended prematurely"))
  | .readBehindBuffer | .storedBehindBuffer => ([], [], .undefined)
  | .decodeError _ => ([], literal "Decode error", .returned)
  | .received _ vi => (receivedText vi, [], .returned)

/-- `"Processed %s for candidate %d; current count is %llu.\n"` -/
def processedLine (v : VoteInfo) : Bytes :=
  literal "Processed " ++ (if v.isInquiry then literal "inquiry" else literal "vote") ++ literal " for candidate " ++
    signedDecimal v.candidate.toInt ++ literal "; current count is " ++ decimal v.count.toNat ++ literal ".\n"

def serverLog : List Event → Bytes
  | .processed _ (some v) :: .sent _ :: rest => processedLine v ++ serverLog rest
  | .clientFinished :: rest => literal "Client finished\n" ++ serverLog rest
  | _ :: rest => serverLog rest
  | [] => []

structure Meeting where
  client : Output
  server : Bytes
deriving DecidableEq, Repr

namespace Invocation
variable {α : Type}

def run (inv : Invocation α) (r : {r : Request // InRange r.candidate}) : ClientRun :=
  ⟨r.1.candidate, r.2, r.1.isInquiry, inv.outbuf, inv.inbuf, inv.serverInBuf, inv.serverOutBuf⟩

def connection (inv : Invocation α) (stream : Bytes) : Connection Channel :=
  ⟨⟨[], inv.segments stream⟩, inv.serverInBuf, inv.serverOutBuf⟩

def exchange (lib : Library) (inv : Invocation α) (r : {r : Request // InRange r.candidate}) (s : State Channel) :
    State Channel × Meeting :=
  match encode r.1.vi inv.outbuf.1 MAX_WIRE_SIZE with
  | none => (s, ⟨⟨[], [], .undefined⟩, []⟩)
  | some (reqSize, outbuf) =>
    let (rv, stream) := putMsg outbuf reqSize
    let (s, events) := (connectionsOn (.file lib)).step (inv.connection stream) s
    if rv < 0 then
      (s, ⟨⟨sending r.1 reqSize, [], .systemMsg (literal "PutMsg() failed") .earlier⟩, serverLog events⟩)
    else
      let (stdout, stderr, ended) := (inv.run r).finish (events.flatMap Event.bytes)
      (s, ⟨⟨sending r.1 reqSize ++ stdout, stderr, ended⟩, serverLog events⟩)

def main (lib : Library) (inv : Invocation α) (s : State Channel) : State Channel × Meeting :=
  match arguments inv.argv inv.lookup with
  | .error ended => (s, ⟨⟨[], [], ended⟩, []⟩)
  | .ok r => inv.exchange lib r s

end Invocation

namespace Invocation
variable {α : Type} (inv : Invocation α)

def refusal : Option Ended :=
  if inv.argv.length < 4 ∨ 5 < inv.argv.length then
    some (.userMsg (literal "Parameter(s)") (literal "<Server> <Port/Service> <Candidate> [I]"))
  else if ¬ InRange (atoi (inv.argv.getD 3 [])) then
    some (.userMsg (literal "Candidate # not valid") (inv.argv.getD 3 []))
  else
    match inv.lookup with
    | .error text => some (.userMsg (literal "getaddrinfo() failed") text)
    | .ok list =>
      if list.any Setup.Addr.connects then none
      else if (list.getLast?.bind Setup.Addr.socket).isSome then
        -- the descriptor of the last address is closed and yet returned
        some (.systemMsg (literal "fdopen() failed") .badDescriptor)
      else some (.userMsg (literal "SetupClient() failed") (literal "unable to connect"))

def asks : Request := ⟨atoi (inv.argv.getD 3 []), 4 < inv.argv.length && inv.argv.getD 4 [] = literal "I"⟩

def request : Option Request :=
  match inv.refusal with
  | some _ => none
  | none => some inv.asks

end Invocation

def votesCast {α : Type} (c : Int) (invs : List (Invocation α)) : Nat :=
  (invs.filterMap Invocation.request).countP fun r => !r.isInquiry && r.candidate.toInt = c

def Invocation.meeting {α : Type} (inv : Invocation α) (invs : List (Invocation α)) : Meeting :=
  match inv.refusal with
  | some ended => ⟨⟨[], [], ended⟩, []⟩
  | none =>
    ⟨⟨sending inv.asks (encodeHead inv.asks.vi).length, literal "Decode error", .returned⟩,
      processedLine
        ⟨UInt64.ofNat (votesCast inv.asks.candidate.toInt invs), inv.asks.candidate, inv.asks.isInquiry, true⟩ ++
        literal "Client finished\n"⟩

/-- The server's buffers as the client finds them: zeros where a number is stored, and no delimiter
where a reply is. -/
structure Invocation.Blank {α : Type} (inv : Invocation α) : Prop where
  holds : Holds [] inv.serverInBuf.1
  clean : ∀ k, DELIM ∉ (inv.serverOutBuf k).1

/-! ### Getting a connection -/

section connecting
variable {α : Type}

theorem connected_eq (list : List (Setup.Addr α)) :
    connected (.ok list) =
      if list.any Setup.Addr.connects then .ok ()
      else if (list.getLast?.bind Setup.Addr.socket).isSome then
        .error (.systemMsg (literal "fdopen() failed") .badDescriptor)
      else .error (.userMsg (literal "SetupClient() failed") (literal "unable to connect")) := by
  by_cases connects : list.any Setup.Addr.connects = true
  · obtain ⟨addr, found⟩ := Option.isSome_iff_exists.mp (List.find?_isSome.mpr (List.any_eq_true.mp connects))
    obtain ⟨sock, -, result, left⟩ := Setup.setupClientFrom_connected found (-1)
    have sign : ¬ (sock : Int) < 0 := by omega
    rw [if_pos connects]
    simp [connected, Setup.setupClient, result, left, Setup.start, sign]
  · have fails : ∀ addr ∈ list, ¬ addr.connects = true := fun addr member done =>
      connects (List.any_eq_true.mpr ⟨addr, member, done⟩)
    obtain ⟨result, left⟩ := Setup.setupClientFrom_failed fails (-1)
    rw [if_neg connects]
    cases last : list.getLast? with
    | none => simp [connected, Setup.setupClient, result, last, Setup.start]
    | some addr =>
      cases made : addr.socket with
      | none => simp [connected, Setup.setupClient, result, last, Setup.start, Setup.asInt, made]
      | some sock =>
        have sign : ¬ (sock : Int) < 0 := by omega
        simp [connected, Setup.setupClient, result, left, last, Setup.start, Setup.asInt, made, sign]

theorem arguments_eq (inv : Invocation α) :
    (∃ ended, inv.refusal = some ended ∧ arguments inv.argv inv.lookup = .error ended) ∨
      inv.refusal = none ∧ ∃ valid, arguments inv.argv inv.lookup = .ok ⟨inv.asks, valid⟩ := by
  unfold Invocation.refusal arguments
  by_cases count : inv.argv.length < 4 ∨ 5 < inv.argv.length
  · exact Or.inl ⟨_, if_pos count, if_pos count⟩
  rw [if_neg count, if_neg count]
  by_cases valid : InRange (atoi (inv.argv.getD 3 []))
  swap
  · exact Or.inl ⟨_, if_pos valid, dif_neg valid⟩
  rw [if_neg (not_not_intro valid), dif_pos valid]
  cases found : inv.lookup with
  | error text => exact Or.inl ⟨_, rfl, rfl⟩
  | ok list =>
    rw [connected_eq]
    dsimp only
    split_ifs with connects stale
    · exact Or.inr ⟨rfl, valid, rfl⟩
    · exact Or.inl ⟨_, rfl, rfl⟩
    · exact Or.inl ⟨_, rfl, rfl⟩

end connecting

/-! ### The exchange -/

theorem finish_reply (run : ClientRun) (v : VoteInfo) {outBuf : WireBuf} (clean : DELIM ∉ outBuf.1) :
    run.finish (replyLine v outBuf.1) = ([], literal "Decode error", .returned) := by
  have head := length_encodeHead v
  have count := length_encodeCount v
  have wire : MAX_WIRE_SIZE = 500 := rfl
  have starts : StartsWithCount ((replyBuf v outBuf.1).take ((encodeHead v).length + (encodeCount v).length)) :=
    startsWithCount_take v _
  have noDelim : DELIM ∉ (replyBuf v outBuf.1).take ((encodeHead v).length + (encodeCount v).length) :=
    fun member => reply_clean clean (List.mem_of_mem_take member)
  have short :
      ((replyBuf v outBuf.1).take ((encodeHead v).length + (encodeCount v).length)).length < MAX_WIRE_SIZE := by
    rw [List.length_take]
    omega
  have got := getNextMsg_line (Nat.le_of_eq run.inbuf.2.symm) [] noDelim short
  obtain ⟨left, rejected⟩ := decode_startsWithCount (starts.append (run.inbuf.1.drop
    ((replyBuf v outBuf.1).take ((encodeHead v).length + (encodeCount v).length)).length)) run.vi
  unfold ClientRun.finish ClientRun.response
  rw [replyLine, got]
  dsimp only
  rw [received, rejected]

def oneRequest (r : Request) (reply : VoteInfo) (outBuf : Bytes) : List Event :=
  [.handed (encodeHead r.vi) 0, .processed r.vi (some reply), .sent (replyLine reply outBuf), .clientFinished]

theorem oneRequest_message (r : Request) (reply : VoteInfo) (outBuf : Bytes) :
    (oneRequest r reply outBuf).filterMap Event.message = [r.vi] := rfl

theorem oneRequest_bytes (r : Request) (reply : VoteInfo) (outBuf : Bytes) :
    (oneRequest r reply outBuf).flatMap Event.bytes = replyLine reply outBuf := by
  simp [oneRequest, Event.bytes]

theorem oneRequest_log (r : Request) (reply : VoteInfo) (outBuf : Bytes) :
    serverLog (oneRequest r reply outBuf) = processedLine reply ++ literal "Client finished\n" := by
  simp [oneRequest, serverLog]

section election
variable {α : Type} {lib : Library}

theorem connection_request (lib : Library) {inv : Invocation α} (blank : inv.Blank) (r : Request) {past : List Event}
    {s : State Channel} (exact : Exact past s.counts) (idle : s.phase = .accepting) :
    ∃ counts reply, (connectionsOn (.file lib)).step (inv.connection r.frame) s =
        (⟨counts, .accepting⟩, oneRequest r reply (inv.serverOutBuf 0).1) ∧
      Counted s.counts counts r.vi reply := by
  obtain ⟨counts, phase⟩ := s
  obtain rfl : phase = .accepting := idle
  have stream : (⟨[], inv.segments r.frame⟩ : Channel).bytes = r.frame := inv.whole r.frame
  have split : (⟨[], inv.segments r.frame⟩ : Channel).bytes = r.frame ++ [] := by rw [stream, List.append_nil]
  obtain ⟨counts', left, reply, served, counted, -⟩ :=
    serveOn_request (.file lib) blank.holds r split (blank.clean 0) exact.1
  have arrived := Channel.behind_segments lib (inv.segments r.frame) []
  rw [List.append_nil, List.flatMap_nil] at arrived
  have own : r.readAs (received [] r.digits) = r.vi := by
    have number : received [] r.digits = r.digits := by simp [received]
    rw [number, Request.readAs, atoi_exact r.digits_numeral]
    rfl
  rw [own] at served counted
  rw [arrived, Channel.output_nothing] at served
  have first : (serverOn (.file lib)).step ((inv.connection r.frame).arrival 0)
      ⟨counts, .serving ⟨[], inv.segments r.frame⟩ inv.serverInBuf.1⟩ = (⟨counts', .serving ⟨[], []⟩ left⟩,
        [.handed (encodeHead r.vi) 0, .processed r.vi (some reply), .sent (replyLine reply (inv.serverOutBuf 0).1)]) :=
    served
  have last : (serverOn (.file lib)).step ((inv.connection r.frame).arrival 1) ⟨counts', .serving ⟨[], []⟩ left⟩ =
      (⟨counts', .accepting⟩, [.clientFinished]) := rfl
  obtain ⟨n, size⟩ : ∃ n, (⟨[], inv.segments r.frame⟩ : Channel).bytes.length = n + 1 :=
    ⟨(encodeHead r.vi).length, by rw [stream, Request.frame, List.length_append, List.length_singleton]⟩
  refine ⟨counts', reply, ?_, counted⟩
  calc (connectionsOn (.file lib)).step (inv.connection r.frame) ⟨counts, .accepting⟩
      = (serverOn (.file lib)).runWhile State.serving (inv.connection r.frame).arrival (n + 1 + 1) 0
          ⟨counts, .serving ⟨[], inv.segments r.frame⟩ inv.serverInBuf.1⟩ := by
        rw [← size]
        rfl
    _ = (⟨counts', .accepting⟩, oneRequest r reply (inv.serverOutBuf 0).1) := by
        rw [(serverOn (.file lib)).runWhile_busy rfl, first, (serverOn (.file lib)).runWhile_busy rfl, last,
          (serverOn (.file lib)).runWhile_idle rfl]
        rfl

def Polled (invs : List (Invocation α)) (s : State Channel) : Prop :=
  ∃ past, Exact past s.counts ∧ s.phase = .accepting ∧
    past.filterMap Event.message = (invs.filterMap Invocation.request).map Request.vi

theorem votesFor_polled {invs : List (Invocation α)} {past : List Event}
    (same : past.filterMap Event.message = (invs.filterMap Invocation.request).map Request.vi) (c : Int) :
    votesFor c past = votesCast c invs := by
  rw [votesFor_eq, same, votesIn, List.countP_map, votesCast]
  rfl

theorem exchange_eq {inv : Invocation α} (blank : inv.Blank) (r : {r : Request // InRange r.candidate})
    {s s' : State Channel} {reply : VoteInfo} (served : (connectionsOn (.file lib)).step (inv.connection r.1.frame) s =
      (s', oneRequest r.1 reply (inv.serverOutBuf 0).1)) :
    inv.exchange lib r s = (s', ⟨⟨sending r.1 (encodeHead r.1.vi).length, literal "Decode error", .returned⟩,
      processedLine reply ++ literal "Client finished\n"⟩) := by
  obtain ⟨out, encoded, put⟩ := r.1.frame_put inv.outbuf
  have sign : ¬ ((encodeHead r.1.vi).length : Int) < 0 := by omega
  simp only [Invocation.exchange, encoded, put, served, if_neg sign, oneRequest_bytes, oneRequest_log,
    finish_reply (inv.run r) reply (blank.clean 0), List.append_nil]

theorem Polled.main {invs : List (Invocation α)} {s : State Channel} (polled : Polled invs s) {inv : Invocation α}
    (blank : inv.Blank) :
    Polled (invs ++ [inv]) (inv.main lib s).1 ∧ (inv.main lib s).2 = inv.meeting (invs ++ [inv]) := by
  obtain ⟨past, exact, idle, same⟩ := polled
  rcases arguments_eq inv with ⟨ended, refused, asked⟩ | ⟨accepted, valid, asked⟩
  · have sends : inv.request = none := by rw [Invocation.request, refused]
    have stays : inv.main lib s = (s, ⟨⟨[], [], ended⟩, []⟩) := by rw [Invocation.main, asked]
    rw [stays, Invocation.meeting, refused]
    exact ⟨⟨past, exact, idle, by simp [same, sends]⟩, rfl⟩
  · have sends : inv.request = some inv.asks := by rw [Invocation.request, accepted]
    obtain ⟨counts, reply, served, counted⟩ := connection_request lib blank inv.asks exact idle
    have exact' : Exact (past ++ oneRequest inv.asks reply (inv.serverOutBuf 0).1) counts := by
      have answered := exact.request counted (encodeHead inv.asks.vi) 0 (replyLine reply (inv.serverOutBuf 0).1)
      have finished : Exact (past ++ [.handed (encodeHead inv.asks.vi) 0, .processed inv.asks.vi (some reply),
        .sent (replyLine reply (inv.serverOutBuf 0).1)] ++ [.clientFinished]) counts := answered.quiet fun _ => rfl
      simpa [oneRequest] using finished
    have heard : (past ++ oneRequest inv.asks reply (inv.serverOutBuf 0).1).filterMap Event.message =
        ((invs ++ [inv]).filterMap Invocation.request).map Request.vi := by
      rw [List.filterMap_append, same, oneRequest_message, List.filterMap_append, List.map_append]
      simp [sends]
    -- the reply carries the counter as it is after this vote
    obtain ⟨c, here⟩ := Int.eq_ofNat_of_zero_le valid.1
    have bound : (c : Int) ≤ MAX_CANDIDATE := here ▸ valid.2
    have stored := counted.inside c here bound
    rw [exact'.2 c bound, votesFor_polled heard, ← here, Option.some.injEq] at stored
    have answer : reply = ⟨UInt64.ofNat (votesCast inv.asks.candidate.toInt (invs ++ [inv])), inv.asks.candidate,
        inv.asks.isInquiry, true⟩ := by
      rw [counted.rest, ← stored]
      rfl
    rw [Invocation.main, asked, Invocation.meeting, accepted]
    dsimp only
    rw [exchange_eq blank ⟨inv.asks, valid⟩ served, ← answer]
    exact ⟨⟨_, exact', rfl, heard⟩, rfl⟩

end election

end SocketPrograms.Vote
