import SocketPrograms.Vote.Encoder
import SocketPrograms.Vote.Session
import SocketPrograms.Vote.Tally

/-! What the vote server makes of requests that follow each other in one connection. `Decode` is
given the whole buffer, and behind a number it finds the digits that longer numbers have left. -/

namespace SocketPrograms.Vote
open Lib CString Format

structure Request where
  candidate : Int32
  isInquiry : Bool
deriving DecidableEq, Repr

namespace Request

def vi (r : Request) : VoteInfo := ⟨0, r.candidate, r.isInquiry, false⟩

def digits (r : Request) : Bytes := signedDecimal r.candidate.toInt

def frame (r : Request) : Bytes := encodeHead r.vi ++ [DELIM]

def readAs (r : Request) (number : Bytes) : VoteInfo := { r.vi with candidate := atoi number }

end Request

/-- The requests as the server reads them, where `residue` is what the buffer holds at the place
of their numbers before the first. -/
def heard : Bytes → List Request → List VoteInfo
  | _, [] => []
  | residue, r :: rest => r.readAs (received residue r.digits) :: heard (received residue r.digits) rest

def residueAfter (residue : Bytes) (requests : List Request) : Bytes :=
  requests.foldl (fun residue r => received residue r.digits) residue

def FRONT : Nat := 10

/-- Behind the front of a request the buffer holds `residue` and then zeros. -/
structure Holds (residue inBuf : Bytes) : Prop where
  room : inBuf.length = MAX_WIRE_SIZE
  noNul : NUL ∉ residue
  noSpace : DELIM_STR ∉ residue
  short : FRONT + residue.length < MAX_WIRE_SIZE
  behind : inBuf.drop FRONT = residue ++ List.replicate (MAX_WIRE_SIZE - FRONT - residue.length) NUL

theorem zeros_holds : Holds [] zeros.1 := by
  refine ⟨zeros.2, by simp, by simp, by decide, ?_⟩
  simp [zeros, NUL]

theorem zeros_clean (_ : Nat) : DELIM ∉ zeros.1 := by
  intro member
  exact absurd (List.eq_of_mem_replicate member) (by decide)

namespace Request

theorem digits_numeral (r : Request) : Numeral r.digits r.candidate.toInt := signedDecimal_numeral _

theorem length_digits (r : Request) : r.digits.length ≤ 11 := by
  have low := r.candidate.le_toInt
  have high := r.candidate.toInt_lt
  exact length_signedDecimal_le (by omega)

theorem frame_put (r : Request) (outBuf : WireBuf) :
    ∃ out, encode r.vi outBuf.1 MAX_WIRE_SIZE = some ((encodeHead r.vi).length, out) ∧
      putMsg out (encodeHead r.vi).length = (((encodeHead r.vi).length : Int), r.frame) := by
  obtain ⟨behind, stored⟩ := encode_request (v := r.vi) rfl outBuf
  have clean : DELIM ∉ encodeHead r.vi := encodeHead_printable (by decide)
  have payload : (encodeHead r.vi ++ NUL :: behind).take (encodeHead r.vi).length = encodeHead r.vi := List.take_left
  have positive : 0 < (encodeHead r.vi).length := by simp [encodeHead, MAGIC, ascii]
  refine ⟨_, stored, ?_⟩
  rw [putMsg_clean (by rwa [payload]) positive, payload, frame]

theorem text_eq (r : Request) :
    encodeHead r.vi = (MAGIC ++ 32 :: (kindStr r.isInquiry ++ [32, 32])) ++ r.digits := by
  rw [encodeHead_request rfl]
  simp [vi, digits]

theorem length_front (r : Request) : (MAGIC ++ 32 :: (kindStr r.isInquiry ++ [32, 32])).length = FRONT := by
  cases r.isInquiry <;> rfl

end Request

/-! ### Reading a request -/

theorem length_stored (residue digits : Bytes) :
    (received residue digits).length = max digits.length residue.length := by
  simp only [received, List.length_append, List.length_drop]
  omega

theorem not_mem_stored {residue digits : Bytes} {b : UInt8} (old : b ∉ residue) (new : b ∉ digits) :
    b ∉ received residue digits := by
  intro member
  rcases List.mem_append.mp member with inside | inside
  · exact new inside
  · exact old (List.mem_of_mem_drop inside)

/-- The bytes of a longer number stay behind a shorter one. -/
theorem Holds.stored {residue inBuf : Bytes} (holds : Holds residue inBuf) {front : Bytes}
    (size : front.length = FRONT) (digits : Bytes) :
    received inBuf (front ++ digits) = front ++ received residue digits ++
      List.replicate (MAX_WIRE_SIZE - FRONT - (received residue digits).length) NUL := by
  have wire : MAX_WIRE_SIZE - FRONT = 490 := rfl
  have zeros : MAX_WIRE_SIZE - FRONT - residue.length - (digits.length - residue.length) =
      MAX_WIRE_SIZE - FRONT - (received residue digits).length := by
    rw [length_stored]
    omega
  have later : inBuf.drop (front ++ digits).length = residue.drop digits.length ++
      List.replicate (MAX_WIRE_SIZE - FRONT - (received residue digits).length) NUL := by
    rw [List.length_append, size, ← List.drop_drop, holds.behind, List.drop_append, List.drop_replicate, zeros]
  rw [received, later, received]
  simp only [List.append_assoc]

theorem decodeBody_number {number : Bytes} {s s' : Scan} (v : VoteInfo) (plain : number ≠ RESPONSE_STR)
    (last : strtok DELIM_STR s = some (some number, s')) :
    decodeBody v s = some ((true, ⟨0, atoi number, v.isInquiry, false⟩), s') := by
  rw [decodeBody, Reader.bind_eq, last]
  dsimp only
  rw [if_neg plain]
  rfl

theorem decode_number {number : Bytes} (isInquiry : Bool) (behind : Bytes) (noNul : NUL ∉ number)
    (noSpace : DELIM_STR ∉ number) (nonempty : number ≠ []) (plain : number ≠ RESPONSE_STR) (v : VoteInfo) :
    decode (MAGIC ++ 32 :: (kindStr isInquiry ++ 32 :: 32 :: (number ++ NUL :: behind))) v =
      some (true, ⟨0, atoi number, isInquiry, false⟩,
        MAGIC ++ [NUL] ++ kindStr isInquiry ++ [NUL] ++ [32] ++ number ++ NUL :: behind) := by
  have kind : NUL ∉ kindStr isInquiry ∧ DELIM_STR ∉ kindStr isInquiry ∧ kindStr isInquiry ≠ [] := by
    cases isInquiry <;> decide
  have first : strtok DELIM_STR ⟨[], MAGIC ++ 32 :: (kindStr isInquiry ++ 32 :: 32 :: (number ++ NUL :: behind))⟩ =
      some (some MAGIC, ⟨MAGIC ++ [NUL], kindStr isInquiry ++ 32 :: 32 :: (number ++ NUL :: behind)⟩) :=
    strtokFrom_delimited DELIM_STR [] [] _ (by decide) (by decide) (by decide) (by decide)
  have second : strtok DELIM_STR ⟨MAGIC ++ [NUL], kindStr isInquiry ++ 32 :: 32 :: (number ++ NUL :: behind)⟩ =
      some (some (kindStr isInquiry),
        ⟨MAGIC ++ [NUL] ++ kindStr isInquiry ++ [NUL], 32 :: (number ++ NUL :: behind)⟩) :=
    strtokFrom_delimited DELIM_STR [] (MAGIC ++ [NUL]) _ kind.1 kind.2.1 (by decide) kind.2.2
  have third : strtok DELIM_STR ⟨MAGIC ++ [NUL] ++ kindStr isInquiry ++ [NUL], 32 :: (number ++ NUL :: behind)⟩ =
      some (some number, ⟨MAGIC ++ [NUL] ++ kindStr isInquiry ++ [NUL] ++ [32] ++ number, NUL :: behind⟩) :=
    strtokFrom_word DELIM_STR [] (MAGIC ++ [NUL] ++ kindStr isInquiry ++ [NUL] ++ [32]) behind noNul noSpace nonempty
  unfold decode decodeFrom
  rw [Reader.bind_eq, first]
  dsimp only
  rw [if_neg (not_not_intro rfl), Reader.bind_eq, second]
  cases isInquiry with
  | true =>
    have other : kindStr true ≠ VOTE_STR := by decide
    dsimp only
    rw [if_neg other, if_pos (show kindStr true = INQ_STR from rfl), decodeBody_number _ plain third]
    rfl
  | false =>
    dsimp only
    rw [if_pos (show kindStr false = VOTE_STR from rfl), decodeBody_number _ plain third]
    rfl

theorem Holds.request {residue inBuf : Bytes} (holds : Holds residue inBuf) (r : Request) (v : VoteInfo) :
    ∃ left, decode (received inBuf (encodeHead r.vi)) v = some (true, r.readAs (received residue r.digits), left) ∧
      Holds (received residue r.digits) left := by
  have digits := r.digits_numeral
  have small := r.length_digits
  have short := holds.short
  have size := length_stored residue r.digits
  have wire : MAX_WIRE_SIZE = FRONT + 490 := rfl
  have noNul := not_mem_stored holds.noNul (digits.not_mem (b := NUL) (by decide))
  have noSpace := not_mem_stored holds.noSpace (digits.not_mem (b := DELIM_STR) (by decide))
  have nonempty : received residue r.digits ≠ [] := by simp [received, digits.ne_nil]
  have plain : received residue r.digits ≠ RESPONSE_STR := by
    intro same
    obtain ⟨b, more, here⟩ := List.exists_cons_of_ne_nil digits.ne_nil
    have letter : b = 82 := by
      rw [received, here, List.cons_append] at same
      exact (List.cons.inj same).1
    exact digits.not_mem (b := 82) (by decide) (by rw [here, letter]; exact List.mem_cons_self ..)
  obtain ⟨n, count⟩ : ∃ n, MAX_WIRE_SIZE - FRONT - (received residue r.digits).length = n + 1 :=
    ⟨MAX_WIRE_SIZE - FRONT - (received residue r.digits).length - 1, by omega⟩
  have stored := holds.stored r.length_front r.digits
  rw [count, List.replicate_succ] at stored
  have found := decode_number r.isInquiry (List.replicate n NUL) noNul noSpace nonempty plain v
  have passed : (MAGIC ++ [NUL] ++ kindStr r.isInquiry ++ [NUL] ++ [32]).length = FRONT := by
    cases r.isInquiry <;> rfl
  have fits : FRONT + (received residue r.digits).length < MAX_WIRE_SIZE := by omega
  refine ⟨MAGIC ++ [NUL] ++ kindStr r.isInquiry ++ [NUL] ++ [32] ++ received residue r.digits ++
    NUL :: List.replicate n NUL, ?_, ⟨?_, noNul, noSpace, fits, ?_⟩⟩
  · rw [r.text_eq, stored]
    have same : r.readAs (received residue r.digits) = ⟨0, atoi (received residue r.digits), r.isInquiry, false⟩ := rfl
    simpa [same] using found
  · rw [List.append_assoc, List.length_append, passed, List.length_append, List.length_cons, List.length_replicate]
    omega
  · rw [List.append_assoc, List.drop_left' passed, count, List.replicate_succ]

/-! ### Replying -/

def replyBuf (v : VoteInfo) (outBuf : Bytes) : Bytes :=
  encodeCount v ++ NUL ::
    (encodeHead v ++ NUL :: outBuf.drop ((encodeHead v).length + 1)).drop ((encodeCount v).length + 1)

def replyLine (v : VoteInfo) (outBuf : Bytes) : Bytes :=
  (replyBuf v outBuf).take ((encodeHead v).length + (encodeCount v).length) ++ [DELIM]

theorem encode_reply {v : VoteInfo} (response : v.isResponse = true) (outBuf : WireBuf) :
    encode v outBuf.1 MAX_WIRE_SIZE =
      some ((encodeHead v).length + (encodeCount v).length, replyBuf v outBuf.1) := by
  have head := length_encodeHead v
  have count := length_encodeCount v
  have wire : MAX_WIRE_SIZE = 500 := rfl
  have size : outBuf.1.length = MAX_WIRE_SIZE := outBuf.2
  have first := snprintf_fits outBuf.1 (encodeHead v) 0 MAX_WIRE_SIZE (by omega) (by omega)
  rw [List.take_zero, List.nil_append, Nat.zero_add, List.append_assoc] at first
  have whole : (encodeHead v ++ NUL :: outBuf.1.drop ((encodeHead v).length + 1)).length = MAX_WIRE_SIZE := by
    rw [List.length_append, List.length_cons, List.length_drop]
    omega
  have second := snprintf_fits (encodeHead v ++ NUL :: outBuf.1.drop ((encodeHead v).length + 1)) (encodeCount v) 0
    (MAX_WIRE_SIZE - (encodeHead v).length) (by omega) (by omega)
  rw [List.take_zero, List.nil_append, Nat.zero_add, List.append_assoc] at second
  have again : snprintf outBuf.1 0 MAX_WIRE_SIZE (encodeHead v) =
      some ((encodeHead v).length, encodeHead v ++ NUL :: outBuf.1.drop ((encodeHead v).length + 1)) := first
  simp only [encode, again, response, if_true, Option.bind_eq_bind, Option.bind_some]
  rw [room_left, second]
  rfl

theorem reply_clean {v : VoteInfo} {outBuf : WireBuf} (clean : DELIM ∉ outBuf.1) :
    DELIM ∉ replyBuf v outBuf.1 := by
  have count : DELIM ∉ encodeCount v := by
    have digits : DELIM ∉ decimal v.count.toNat := (decimal_numeral _).not_mem (by decide)
    simpa [encodeCount] using ⟨by decide, digits⟩
  have head : DELIM ∉ encodeHead v := encodeHead_printable (by decide)
  have other : DELIM ≠ NUL := by decide
  intro member
  rcases List.mem_append.mp member with inside | inside
  · exact count inside
  rcases List.mem_cons.mp inside with same | inside
  · exact other same
  rcases List.mem_append.mp (List.mem_of_mem_drop inside) with inside | inside
  · exact head inside
  rcases List.mem_cons.mp inside with same | inside
  · exact other same
  · exact clean (List.mem_of_mem_drop inside)

theorem putMsg_reply (v : VoteInfo) {outBuf : WireBuf} (clean : DELIM ∉ outBuf.1) :
    putMsg (replyBuf v outBuf.1) ((encodeHead v).length + (encodeCount v).length) =
      ((((encodeHead v).length + (encodeCount v).length : Nat) : Int), replyLine v outBuf.1) := by
  have positive : 0 < (encodeHead v).length + (encodeCount v).length := by
    simp only [encodeCount, List.length_append, List.length_singleton]
    omega
  exact putMsg_clean (fun member => reply_clean clean (List.mem_of_mem_take member)) positive

section turn
variable {σ : Type} (io : Stdio σ)

theorem respondOn_request {counts : List UInt64} {msg : VoteInfo} (request : msg.isResponse = false) (rest : σ)
    (left : Bytes) {outBuf : WireBuf} (clean : DELIM ∉ outBuf.1) (size : counts.length = 1001) :
    ∃ counts' reply, respondOn io counts rest left msg outBuf.1 =
        (⟨counts', .serving (io.output rest (replyLine reply outBuf.1)).1 left⟩,
          [.processed msg (some reply), .sent (io.output rest (replyLine reply outBuf.1)).2]) ∧
      Counted counts counts' msg reply := by
  obtain ⟨counts', reply, tallied, counted⟩ := tally_counted size request
  have response : reply.isResponse = true := by rw [counted.rest]
  have sign : ¬ ((((encodeHead reply).length + (encodeCount reply).length : Nat) : Int) < 0) := by omega
  refine ⟨counts', reply, ?_, counted⟩
  simp only [respondOn, request, tallied, encode_reply response, putMsg_reply reply clean, if_neg sign]
  rfl

theorem serveOn_request {counts : List UInt64} {residue inBuf : Bytes} (holds : Holds residue inBuf) (r : Request)
    {stream : σ} {rest : Bytes} (split : io.bytes stream = r.frame ++ rest) {outBuf : WireBuf}
    (clean : DELIM ∉ outBuf.1) (size : counts.length = 1001) :
    ∃ counts' left reply, serveOn io counts stream inBuf outBuf.1 =
        (⟨counts', .serving (io.output (io.behind stream rest) (replyLine reply outBuf.1)).1 left⟩,
          [.handed (encodeHead r.vi) rest.length, .processed (r.readAs (received residue r.digits)) (some reply),
            .sent (io.output (io.behind stream rest) (replyLine reply outBuf.1)).2]) ∧
      Counted counts counts' (r.readAs (received residue r.digits)) reply ∧ Holds (received residue r.digits) left := by
  obtain ⟨left, decoded, holds'⟩ := holds.request r VoteInfo.zero
  obtain ⟨counts', reply, responded, counted⟩ := respondOn_request io
    (show (r.readAs (received residue r.digits)).isResponse = false from rfl) (io.behind stream rest) left clean size
  have noDelim : DELIM ∉ encodeHead r.vi := encodeHead_printable (by decide)
  have long := length_encodeHead r.vi
  have wire : MAX_WIRE_SIZE = 500 := rfl
  have nonempty : 0 < (encodeHead r.vi).length := by simp [encodeHead, MAGIC, ascii]
  have positive : (0 : Int) < (encodeHead r.vi).length := by exact_mod_cast nonempty
  have line : r.frame ++ rest = encodeHead r.vi ++ DELIM :: rest := List.append_assoc ..
  have got := getNextMsg_line (Nat.le_of_eq holds.room.symm) rest noDelim (by omega)
  have payload : (received inBuf (encodeHead r.vi)).take ((encodeHead r.vi).length : Int).toNat = encodeHead r.vi :=
    take_received inBuf (encodeHead r.vi)
  refine ⟨counts', left, reply, ?_, counted, holds'⟩
  rw [serveOn, split, line, got]
  dsimp only
  rw [if_pos positive, decoded, payload]
  dsimp only
  rw [responded]

end turn

theorem Exact.request {past : List Event} {counts counts' : List UInt64} {msg reply : VoteInfo}
    (exact : Exact past counts) (counted : Counted counts counts' msg reply) (payload : Bytes) (later : Nat)
    (bytes : Bytes) : Exact (past ++ [.handed payload later, .processed msg (some reply), .sent bytes]) counts' := by
  have before : Exact (past ++ [.handed payload later]) counts := exact.quiet fun _ => rfl
  rw [List.append_cons, List.append_cons]
  exact (before.counted counted (some reply)).quiet fun _ => rfl

/-! ### Connections -/

def Event.message : Event → Option VoteInfo
  | .processed msg _ => some msg
  | _ => none

/-- A request, and the reads that it comes in. No read brings bytes of two requests, as each waits
for the reply to the one before it. -/
structure Delivery where
  request : Request
  segments : List Segment
  whole : segments.flatMap Segment.bytes = request.frame

/-- A connection that carries requests, and what the buffers hold: `residue` where the first number
is stored. -/
structure Ballot where
  deliveries : List Delivery
  residue : Bytes
  inBuf : WireBuf
  outBuf : Nat → WireBuf

namespace Ballot

def requests (ballot : Ballot) : List Request := ballot.deliveries.map Delivery.request

def connection (ballot : Ballot) : Connection Channel :=
  ⟨⟨[], ballot.deliveries.flatMap Delivery.segments⟩, ballot.inBuf, ballot.outBuf⟩

/-- The messages that the server processes. -/
def heard (ballot : Ballot) : List VoteInfo := Vote.heard ballot.residue ballot.requests

/-- The buffers the server has: behind `residue` are zeros, and no delimiter where a reply is. -/
structure Blank (ballot : Ballot) : Prop where
  holds : Holds ballot.residue ballot.inBuf.1
  clean : ∀ k, DELIM ∉ (ballot.outBuf k).1

theorem bytes_deliveries (deliveries : List Delivery) :
    (deliveries.flatMap Delivery.segments).flatMap Segment.bytes =
      deliveries.flatMap fun delivery => delivery.request.frame := by
  rw [List.flatMap_assoc]
  simp only [Delivery.whole]

theorem runWhile (lib : Library) {ballot : Ballot} (clean : ∀ k, DELIM ∉ (ballot.outBuf k).1)
    (deliveries : List Delivery) {fuel : Nat} (k : Nat) {past : List Event} {counts : List UInt64}
    {residue inBuf : Bytes} (holds : Holds residue inBuf) (exact : Exact past counts)
    (bound : deliveries.length < fuel) :
    let done := (fileServer lib).runWhile State.serving ballot.connection.arrival fuel k
      ⟨counts, .serving ⟨[], deliveries.flatMap Delivery.segments⟩ inBuf⟩
    done.1.phase = .accepting ∧ Exact (past ++ done.2) done.1.counts ∧
      done.2.filterMap Event.message = Vote.heard residue (deliveries.map Delivery.request) := by
  induction deliveries generalizing fuel k past counts residue inBuf with
  | nil =>
    obtain ⟨fuel, rfl⟩ := Nat.exists_eq_succ_of_ne_zero (Nat.ne_of_gt bound)
    have turn : (fileServer lib).step (ballot.connection.arrival k) ⟨counts, .serving ⟨[], []⟩ inBuf⟩ =
        (⟨counts, .accepting⟩, [.clientFinished]) := rfl
    rw [List.flatMap_nil, (fileServer lib).runWhile_busy rfl, turn, (fileServer lib).runWhile_idle rfl]
    exact ⟨rfl, exact.quiet fun _ => rfl, rfl⟩
  | cons delivery rest ih =>
    obtain ⟨fuel, rfl⟩ := Nat.exists_eq_succ_of_ne_zero (Nat.ne_of_gt (Nat.zero_lt_of_lt bound))
    have split : (⟨[], delivery.segments ++ rest.flatMap Delivery.segments⟩ : Channel).bytes =
        delivery.request.frame ++ (rest.flatMap Delivery.segments).flatMap Segment.bytes := by
      simp [Channel.bytes, delivery.whole]
    obtain ⟨counts', left, reply, served, counted, later⟩ :=
      serveOn_request (.file lib) holds delivery.request split (clean k) exact.1
    rw [Channel.behind_segments, Channel.output_nothing] at served
    have turn : (fileServer lib).step (ballot.connection.arrival k)
        ⟨counts, .serving ⟨[], delivery.segments ++ rest.flatMap Delivery.segments⟩ inBuf⟩ = _ := served
    have exact' := exact.request counted (encodeHead delivery.request.vi)
      ((rest.flatMap Delivery.segments).flatMap Segment.bytes).length (replyLine reply (ballot.outBuf k).1)
    have onward := ih (k + 1) later exact' (Nat.lt_of_succ_lt_succ bound)
    rw [List.flatMap_cons, (fileServer lib).runWhile_busy rfl, turn]
    refine ⟨onward.1, ?_, ?_⟩
    · simpa using onward.2.1
    · dsimp only
      rw [List.filterMap_append, onward.2.2]
      rfl

theorem length_deliveries (deliveries : List Delivery) :
    deliveries.length ≤ (⟨[], deliveries.flatMap Delivery.segments⟩ : Channel).bytes.length := by
  rw [Channel.bytes, List.nil_append, bytes_deliveries]
  induction deliveries with
  | nil => exact Nat.zero_le _
  | cons delivery rest ih =>
    rw [List.flatMap_cons, List.length_append, Request.frame, List.length_append, List.length_singleton,
      List.length_cons]
    omega

theorem step (lib : Library) {ballot : Ballot} (blank : ballot.Blank) {past : List Event} {s : State Channel}
    (exact : Exact past s.counts) (idle : s.phase = .accepting) :
    let done := (connectionsOn (.file lib)).step ballot.connection s
    done.1.phase = .accepting ∧ Exact (past ++ done.2) done.1.counts ∧
      done.2.filterMap Event.message = ballot.heard := by
  obtain ⟨counts, phase⟩ := s
  obtain rfl : phase = .accepting := idle
  exact runWhile lib blank.clean ballot.deliveries 0 blank.holds exact
    (Nat.lt_succ_of_le (length_deliveries ballot.deliveries))

theorem run (lib : Library) {ballots : List Ballot} (blank : ∀ ballot ∈ ballots, ballot.Blank) {past : List Event}
    {s : State Channel} (exact : Exact past s.counts) (idle : s.phase = .accepting) :
    let done := (connectionsOn (.file lib)).run (ballots.map connection) s
    done.1.phase = .accepting ∧ Exact (past ++ done.2) done.1.counts ∧
      done.2.filterMap Event.message = ballots.flatMap heard := by
  induction ballots generalizing past s with
  | nil => exact ⟨idle, by simpa using exact, rfl⟩
  | cons ballot rest ih =>
    obtain ⟨idle', exact', first⟩ := step lib (blank ballot (List.mem_cons_self ..)) exact idle
    have later := ih (fun ballot member => blank ballot (List.mem_cons_of_mem _ member)) exact' idle'
    rw [List.map_cons, (connectionsOn (.file lib)).run_cons]
    refine ⟨later.1, by simpa using later.2.1, ?_⟩
    dsimp only
    rw [List.filterMap_append, first, later.2.2, List.flatMap_cons]

end Ballot

def votesIn (c : Int) (messages : List VoteInfo) : Nat :=
  messages.countP fun msg => !msg.isResponse && !msg.isInquiry && msg.candidate.toInt = c

theorem votesFor_eq (c : Int) (past : List Event) : votesFor c past = votesIn c (past.filterMap Event.message) := by
  have same : Event.votes c = fun event => (event.message.map fun msg =>
      !msg.isResponse && !msg.isInquiry && msg.candidate.toInt = c).getD false := by
    funext event
    cases event <;> rfl
  rw [votesFor, votesIn, List.countP_filterMap, same]

theorem start_exact : Exact [] (start : State Channel).counts := start_accounted.exact

/-- What the server counts of the requests in any sequence of connections: each number goes on with
the bytes that were left behind it. -/
theorem requests_heard (lib : Library) (ballots : List Ballot) (blank : ∀ ballot ∈ ballots, ballot.Blank) :
    let now := (connectionsOn (.file lib)).run (ballots.map Ballot.connection) start
    now.1.phase = .accepting ∧ now.2.filterMap Event.message = ballots.flatMap Ballot.heard ∧
      ∀ c : Nat, c ≤ MAX_CANDIDATE →
        now.1.counts[c]? = some (UInt64.ofNat (votesIn c (ballots.flatMap Ballot.heard))) := by
  intro now
  obtain ⟨idle, exact, served⟩ := Ballot.run lib blank start_exact rfl
  refine ⟨idle, served, fun c bound => ?_⟩
  rw [exact.2 c bound, List.nil_append, votesFor_eq, served]

def Request.delivery (r : Request) : Delivery where
  request := r
  segments := [⟨86, r.frame.tail⟩]
  whole := by
    rw [List.flatMap_singleton, frame, text_eq]
    rfl

def twelveThenFour : Ballot where
  deliveries := [Request.delivery ⟨12, false⟩, Request.delivery ⟨4, false⟩, Request.delivery ⟨45, false⟩]
  residue := []
  inBuf := zeros
  outBuf := fun _ => zeros

theorem twelveThenFour_blank : twelveThenFour.Blank := ⟨zeros_holds, zeros_clean⟩

theorem requests_heard_twelve :
    ((connectionsOn (.file .drops)).run [twelveThenFour.connection] start).2.filterMap Event.message =
      [⟨0, 12, false, false⟩, ⟨0, 42, false, false⟩, ⟨0, 45, false, false⟩] := by
  have served := (requests_heard .drops [twelveThenFour] (by simpa using twelveThenFour_blank)).2.1
  have heard : [twelveThenFour].flatMap Ballot.heard =
      [⟨0, 12, false, false⟩, ⟨0, 42, false, false⟩, ⟨0, 45, false, false⟩] := by decide +kernel
  exact served.trans heard

/-! ### Requests that are read as they were sent -/

/-- No digit of an earlier number is left behind this one, or only zeros behind the zero. -/
def Undisturbed (before : List Request) (r : Request) : Prop :=
  (∀ q ∈ before, q.digits.length ≤ r.digits.length) ∨
    r.candidate = 0 ∧ ∀ b ∈ (residueAfter [] before).drop r.digits.length, b = 48

instance (before : List Request) (r : Request) : Decidable (Undisturbed before r) :=
  inferInstanceAs (Decidable (_ ∨ _))

theorem heard_exact_iff (residue : Bytes) (requests : List Request) :
    heard residue requests = requests.map Request.vi ↔ ∀ before r after, requests = before ++ r :: after →
      atoi (received (residueAfter residue before) r.digits) = r.candidate := by
  induction requests generalizing residue with
  | nil => simp [heard]
  | cons q rest ih =>
    have first : q.readAs (received residue q.digits) = q.vi ↔ atoi (received residue q.digits) = q.candidate := by
      simp [Request.readAs, Request.vi]
    rw [heard, List.map_cons, List.cons.injEq, first, ih]
    constructor
    · intro ⟨exact, later⟩ before r after split
      rcases List.cons_eq_append_iff.mp split with ⟨rfl, same⟩ | ⟨before, rfl, same⟩
      · obtain ⟨rfl, -⟩ := List.cons.inj same
        exact exact
      · exact later before r after same
    · intro all
      refine ⟨all [] q rest rfl, fun before r after split => ?_⟩
      exact all (q :: before) r after (by rw [split, List.cons_append])

theorem length_residueAfter_le (residue : Bytes) (requests : List Request) (n : Nat) :
    (residueAfter residue requests).length ≤ n ↔ residue.length ≤ n ∧ ∀ q ∈ requests, q.digits.length ≤ n := by
  induction requests generalizing residue with
  | nil => simp [residueAfter]
  | cons q rest ih =>
    have onward : residueAfter residue (q :: rest) = residueAfter (received residue q.digits) rest := rfl
    rw [onward, ih, length_stored, List.forall_mem_cons, Nat.max_le]
    exact ⟨fun ⟨⟨new, old⟩, later⟩ => ⟨old, new, later⟩, fun ⟨old, new, later⟩ => ⟨⟨new, old⟩, later⟩⟩

section inRange
variable {requests : List Request}

theorem Request.digits_eq {r : Request} (inRange : InRange r.candidate) :
    r.digits = decimal r.candidate.toInt.natAbs := by
  rw [digits, signedDecimal, if_neg (Int.not_lt.mpr inRange.1)]

theorem Request.digits_inRange {r : Request} (inRange : InRange r.candidate) :
    (∀ b ∈ r.digits, isDigit b = true) ∧ r.digits.length ≤ 4 ∧ (digitsValue r.digits : Int) = r.candidate.toInt := by
  have low := inRange.1
  have bound := inRange.2
  simp only [MAX_CANDIDATE] at bound
  rw [digits_eq inRange, digitsValue_decimal]
  exact ⟨decimal_isDigit _, length_decimal_le (by decide) (by omega), Int.natAbs_of_nonneg inRange.1⟩

theorem residueAfter_digits {residue : Bytes} (old : ∀ b ∈ residue, isDigit b = true)
    (inRange : ∀ r ∈ requests, InRange r.candidate) : ∀ b ∈ residueAfter residue requests, isDigit b = true := by
  induction requests generalizing residue with
  | nil => exact old
  | cons q rest ih =>
    refine ih (fun b member => ?_) fun r later => inRange r (List.mem_cons_of_mem q later)
    rcases List.mem_append.mp member with inside | inside
    · exact (Request.digits_inRange (inRange q (List.mem_cons_self ..))).1 b inside
    · exact old b (List.mem_of_mem_drop inside)

theorem atoi_digits {digits : Bytes} (nonempty : digits ≠ []) (all : ∀ b ∈ digits, isDigit b = true)
    (short : digits.length ≤ 4) : (atoi digits).toInt = digitsValue digits := by
  have small : digitsValue digits < 10 ^ 4 :=
    Nat.lt_of_lt_of_le (digitsValue_lt all) (Nat.pow_le_pow_right (by decide) short)
  rw [atoi, strtoll_exact (Numeral.plain nonempty all) (by omega) (by omega)]
  exact Int32.toInt_ofInt_of_le (by omega) (by omega)

theorem undisturbed_iff {before : List Request} {r : Request} (inRange : ∀ q ∈ before, InRange q.candidate)
    (own : InRange r.candidate) :
    atoi (received (residueAfter [] before) r.digits) = r.candidate ↔ Undisturbed before r := by
  obtain ⟨digits, short, value⟩ := Request.digits_inRange own
  have old : ∀ b ∈ residueAfter [] before, isDigit b = true := residueAfter_digits (by simp) inRange
  have all : ∀ b ∈ received (residueAfter [] before) r.digits, isDigit b = true := fun b member =>
    (List.mem_append.mp member).elim (digits b) fun inside => old b (List.mem_of_mem_drop inside)
  have long : (residueAfter [] before).length ≤ 4 :=
    (length_residueAfter_le [] before 4).mpr
      ⟨Nat.zero_le 4, fun q member => (Request.digits_inRange (inRange q member)).2.1⟩
  have size : (received (residueAfter [] before) r.digits).length ≤ 4 := by
    rw [length_stored]
    omega
  have nonempty : received (residueAfter [] before) r.digits ≠ [] := by simp [received, r.digits_numeral.ne_nil]
  have none : (residueAfter [] before).drop r.digits.length = [] ↔ ∀ q ∈ before, q.digits.length ≤ r.digits.length := by
    rw [List.drop_eq_nil_iff, length_residueAfter_le]
    simp
  have zero : digitsValue r.digits = 0 ↔ r.candidate = 0 := by
    rw [← Int32.toInt_inj, ← value]
    exact Int.natCast_eq_zero.symm
  calc atoi (received (residueAfter [] before) r.digits) = r.candidate
      ↔ (digitsValue (received (residueAfter [] before) r.digits) : Int) = digitsValue r.digits := by
        rw [← Int32.toInt_inj, atoi_digits nonempty all size, value]
    _ ↔ digitsValue (r.digits ++ (residueAfter [] before).drop r.digits.length) = digitsValue r.digits :=
      Int.natCast_inj
    _ ↔ Undisturbed before r := by rw [digitsValue_append_eq_iff all, none, zero, Undisturbed]

end inRange

theorem four_disturbed : ¬ Undisturbed [⟨12, false⟩] ⟨4, false⟩ := by decide

/-- Which connections are counted as the clients meant it: those in which no number is disturbed by
an earlier one of the same connection, when the buffer holds zeros at first. -/
theorem read_as_sent_iff (lib : Library) (ballots : List Ballot) (ballot : Ballot)
    (blank : ∀ before ∈ ballot :: ballots, before.Blank) (fresh : ballot.residue = [])
    (inRange : ∀ r ∈ ballot.requests, InRange r.candidate) :
    let before := ((connectionsOn (.file lib)).run (ballots.map Ballot.connection) start).1
    ((connectionsOn (.file lib)).step ballot.connection before).2.filterMap Event.message =
        ballot.requests.map Request.vi ↔
      ∀ before r after, ballot.requests = before ++ r :: after → Undisturbed before r := by
  intro now
  obtain ⟨own, earlier⟩ := List.forall_mem_cons.mp blank
  obtain ⟨idle, exact, -⟩ := Ballot.run lib earlier start_exact rfl
  have served := (Ballot.step lib own exact idle).2.2
  rw [served, Ballot.heard, fresh, heard_exact_iff]
  apply forall_congr'
  intro before
  apply forall_congr'
  intro r
  apply forall_congr'
  intro after
  apply imp_congr_right
  intro split
  rw [split] at inRange
  exact undisturbed_iff (fun q member => inRange q (List.mem_append_left _ member)) (inRange r (by simp))

/-- The vote for 4 is read as one for 42. -/
theorem read_as_sent_iff_twelve :
    ((connectionsOn (.file .drops)).step twelveThenFour.connection start).2.filterMap Event.message ≠
      twelveThenFour.requests.map Request.vi := by
  intro same
  have blank : ∀ ballot ∈ [twelveThenFour], ballot.Blank := by simpa using twelveThenFour_blank
  have all := (read_as_sent_iff .drops [] twelveThenFour blank rfl (by decide)).mp same
  exact four_disturbed (all [⟨12, false⟩] ⟨4, false⟩ [⟨45, false⟩] rfl)

end SocketPrograms.Vote
