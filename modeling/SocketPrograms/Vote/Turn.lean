import SocketPrograms.Vote.Server

/-! What one turn of the loop over the messages of a connection can do. -/

namespace SocketPrograms.Vote
open Lib CString

def PlainRequest (out : Bool × VoteInfo) : Prop := out.1 = true → out.2.isResponse = false → out.2.count = 0

theorem plainRequest_rejected (v : VoteInfo) : PlainRequest (false, v) := by
  simp [PlainRequest]

theorem decodeNumbers_request (v : VoteInfo) (tok : Bytes) : Ensures (decodeNumbers v tok) PlainRequest := by
  unfold decodeNumbers
  by_cases response : v.isResponse = true
  · simp only [response, if_true]
    apply Ensures.bind
    intro next
    cases next with
    | none => exact Ensures.pure (plainRequest_rejected _)
    | some tok => exact Ensures.pure (by simp [PlainRequest])
  · simp only [response, Bool.false_eq_true, if_false]
    exact Ensures.pure (by simp [PlainRequest])

theorem decodeBody_request (v : VoteInfo) : Ensures (decodeBody v) PlainRequest := by
  apply Ensures.bind
  intro third
  cases third with
  | none => exact Ensures.pure (plainRequest_rejected _)
  | some tok =>
    apply Ensures.ite
    · apply Ensures.bind
      intro fourth
      cases fourth with
      | none => exact Ensures.pure (plainRequest_rejected _)
      | some tok => exact decodeNumbers_request _ _
    · exact decodeNumbers_request _ _

theorem decodeFrom_request (v : VoteInfo) : Ensures (decodeFrom v) PlainRequest := by
  apply Ensures.bind
  intro first
  apply Ensures.ite (Ensures.pure (plainRequest_rejected _))
  apply Ensures.bind
  intro second
  cases second with
  | none => exact Ensures.pure (plainRequest_rejected _)
  | some tok =>
    apply Ensures.ite (decodeBody_request _)
    exact Ensures.ite (decodeBody_request _) (Ensures.pure (plainRequest_rejected _))

theorem decode_request {inBuf left : Bytes} {v msg : VoteInfo} (done : decode inBuf v = some (true, msg, left))
    (request : msg.isResponse = false) : msg.count = 0 := by
  unfold decode at done
  split at done
  next starved => cases done
  next r w s ends =>
    obtain ⟨rfl, rfl, -⟩ := by simpa using done
    exact decodeFrom_request v _ _ _ ends rfl request

structure Counted (counts counts' : List UInt64) (msg reply : VoteInfo) : Prop where
  size : counts'.length = counts.length
  slots : ∀ c : Nat, c ≤ MAX_CANDIDATE →
    counts'[c]? = counts[c]?.map fun n => if (Event.processed msg none).votes c then n + 1 else n
  idle : msg.isInquiry = true ∨ ¬ InRange msg.candidate → counts' = counts
  rest : reply = { msg with isResponse := true, count := reply.count }
  inside : ∀ c : Nat, msg.candidate.toInt = c → c ≤ MAX_CANDIDATE → counts'[c]? = some reply.count
  outside : ¬ InRange msg.candidate → reply.count = msg.count

@[simp] theorem fetch_natCast (counts : List UInt64) (c : Nat) : fetch counts c = counts[c]? := by
  simp [fetch]

@[simp] theorem bump_natCast (counts : List UInt64) (c : Nat) :
    bump counts c = counts[c]?.map fun n => counts.set c (n + 1) := by
  simp [bump]

theorem tally_counted {counts : List UInt64} {msg : VoteInfo} (size : counts.length = 1001)
    (request : msg.isResponse = false) :
    ∃ counts' reply, tally counts msg = some (counts', reply) ∧ Counted counts counts' msg reply := by
  by_cases range : InRange msg.candidate
  swap
  · refine ⟨counts, { msg with isResponse := true }, by simp [tally, range], ?_⟩
    refine ⟨rfl, fun c bound => ?_, fun _ => rfl, rfl, fun c same bound => ?_, fun _ => rfl⟩
    · have other : msg.candidate.toInt ≠ c := fun same => range (by simp only [InRange, same]; omega)
      simp [Event.votes, other]
    · exact absurd (by simp only [InRange, same]; omega) range
  obtain ⟨low, high⟩ := id range
  obtain ⟨c, here⟩ := Int.eq_ofNat_of_zero_le low
  have inside : c < counts.length := by
    simp only [MAX_CANDIDATE] at high
    omega
  have slot : counts[c]? = some counts[c] := List.getElem?_eq_getElem inside
  have sole {d : Nat} (same : msg.candidate.toInt = d) : d = c := by omega
  cases inquiry : msg.isInquiry with
  | true =>
    refine ⟨counts, { msg with isResponse := true, count := counts[c] }, ?_, ?_⟩
    · simp [tally, range, inquiry, here, slot]
    · refine ⟨rfl, fun d _ => by simp [Event.votes, inquiry], fun _ => rfl, rfl, fun d same _ => ?_,
        fun out => absurd range out⟩
      rw [sole same, slot]
  | false =>
    have stored : (counts.set c (counts[c] + 1))[c]? = some (counts[c] + 1) := by simp [inside]
    refine ⟨counts.set c (counts[c] + 1), { msg with isResponse := true, count := counts[c] + 1 }, ?_, ?_⟩
    · simp [tally, range, inquiry, here, inside]
    · refine ⟨by simp, fun d _ => ?_, fun idle => ?_, rfl, fun d same _ => by rw [sole same, stored],
        fun out => absurd range out⟩
      · by_cases same : msg.candidate.toInt = d
        · simp [Event.votes, request, inquiry, sole same, here, stored, slot]
        · have other : c ≠ d := by omega
          simp [Event.votes, same, List.getElem?_set_ne other]
      · simp [inquiry, range] at idle

/-- What a turn can do. Only `ignored`, `refused` and `replied` have decoded a message. -/
inductive Turn (counts : List UInt64) (stream inBuf : Bytes) : State → List Event → Prop where
  | exited : Turn counts stream inBuf ⟨counts, .stopped .exited⟩ []
  | readBehind (payload : Bytes) (later : Nat) :
      Turn counts stream inBuf ⟨counts, .stopped .readBehindBuffer⟩ [.handed payload later]
  | finished : Turn counts stream inBuf ⟨counts, .accepting⟩ [.clientFinished]
  | parseError (payload : Bytes) (later : Nat) :
      Turn counts stream inBuf ⟨counts, .accepting⟩ [.handed payload later, .parseError, .clientFinished]
  | ignored (payload : Bytes) (later : Nat) {msg : VoteInfo} {rest left : Bytes} (response : msg.isResponse = true)
      (shorter : rest.length < stream.length) (room : left.length = inBuf.length) :
      Turn counts stream inBuf ⟨counts, .serving rest left⟩ [.handed payload later, .processed msg none]
  | refused (payload : Bytes) (later : Nat) {msg reply : VoteInfo} {counts' : List UInt64}
      (request : msg.isResponse = false) (zero : msg.count = 0) (counted : Counted counts counts' msg reply) :
      Turn counts stream inBuf ⟨counts', .accepting⟩
        [.handed payload later, .processed msg (some reply), .putError, .clientFinished]
  | replied (payload : Bytes) (later : Nat) {msg reply : VoteInfo} {counts' : List UInt64}
      {rest left behind : Bytes} {mSize : Nat} (request : msg.isResponse = false) (zero : msg.count = 0)
      (counted : Counted counts counts' msg reply) (shorter : rest.length < stream.length)
      (room : left.length = inBuf.length) (size : mSize = (encodeHead reply).length + (encodeCount reply).length)
      (clean : DELIM ∉ (encodeCount reply ++ NUL :: behind).take mSize) :
      Turn counts stream inBuf ⟨counts', .serving rest left⟩ [.handed payload later, .processed msg (some reply),
        .sent ((encodeCount reply ++ NUL :: behind).take mSize ++ [DELIM])]

theorem putMsg_cases (buf : Bytes) {msgSize : Nat} (positive : 0 < msgSize) :
    putMsg buf msgSize = (-1, []) ∨
      DELIM ∉ buf.take msgSize ∧ putMsg buf msgSize = ((msgSize : Int), buf.take msgSize ++ [DELIM]) := by
  by_cases line : DELIM ∈ buf.take msgSize
  · exact Or.inl (by rw [putMsg, if_pos line])
  · exact Or.inr ⟨line, by rw [putMsg, if_neg line, if_neg (by omega)]⟩

inductive Response {σ : Type} (io : Stdio σ) (counts : List UInt64) (rest : σ) (left : Bytes) (msg : VoteInfo) :
    State σ → List Event → Prop where
  | ignored (response : msg.isResponse = true) :
      Response io counts rest left msg ⟨counts, .serving rest left⟩ [.processed msg none]
  | refused {reply : VoteInfo} {counts' : List UInt64} (request : msg.isResponse = false)
      (counted : Counted counts counts' msg reply) :
      Response io counts rest left msg ⟨counts', .accepting⟩
        [.processed msg (some reply), .putError, .clientFinished]
  | replied {reply : VoteInfo} {counts' : List UInt64} {behind : Bytes} {mSize : Nat}
      (request : msg.isResponse = false) (counted : Counted counts counts' msg reply)
      (size : mSize = (encodeHead reply).length + (encodeCount reply).length)
      (clean : DELIM ∉ (encodeCount reply ++ NUL :: behind).take mSize) :
      Response io counts rest left msg
        ⟨counts', .serving (io.output rest ((encodeCount reply ++ NUL :: behind).take mSize ++ [DELIM])).1 left⟩
        [.processed msg (some reply),
          .sent (io.output rest ((encodeCount reply ++ NUL :: behind).take mSize ++ [DELIM])).2]

theorem respondOn_response {σ : Type} (io : Stdio σ) {counts : List UInt64} (rest : σ) (left : Bytes) (msg : VoteInfo)
    (outBuf : WireBuf) (size : counts.length = 1001) :
    Response io counts rest left msg (respondOn io counts rest left msg outBuf.1).1
      (respondOn io counts rest left msg outBuf.1).2 := by
  cases request : msg.isResponse with
  | true => simpa [respondOn, request] using Response.ignored request
  | false =>
    obtain ⟨counts', reply, tallied, counted⟩ := tally_counted size request
    have response : reply.isResponse = true := by rw [counted.rest]
    obtain ⟨behind, encoded, -⟩ := encode_response response outBuf
    have positive : 0 < (encodeHead reply).length + (encodeCount reply).length := by
      simp only [encodeCount, List.length_append, List.length_singleton]
      omega
    rcases putMsg_cases (encodeCount reply ++ NUL :: behind) positive with refused | ⟨clean, put⟩
    · simpa [respondOn, request, tallied, encoded, refused] using Response.refused request counted
    · have sign : ¬ (((encodeHead reply).length : Int) + (encodeCount reply).length < 0) := by omega
      simpa [respondOn, request, tallied, encoded, put, sign] using Response.replied request counted rfl clean

theorem respond_response {counts : List UInt64} (rest left : Bytes) (msg : VoteInfo) (outBuf : WireBuf)
    (size : counts.length = 1001) :
    ∃ s events, respond counts rest left msg outBuf.1 = (s, events) ∧
      Response .ideal counts rest left msg s events :=
  ⟨_, _, rfl, respondOn_response .ideal rest left msg outBuf size⟩

theorem respond_turn {counts : List UInt64} {stream inBuf rest left : Bytes} {msg : VoteInfo}
    (outBuf : WireBuf) (size : counts.length = 1001) (zero : msg.isResponse = false → msg.count = 0)
    (shorter : rest.length < stream.length) (room : left.length = inBuf.length) (payload : Bytes) (later : Nat) :
    Turn counts stream inBuf (respond counts rest left msg outBuf.1).1
      (.handed payload later :: (respond counts rest left msg outBuf.1).2) := by
  obtain ⟨s, events, responded, response⟩ := respond_response rest left msg outBuf size
  rw [responded]
  cases response with
  | ignored response => exact .ignored payload later response shorter room
  | refused request counted => exact .refused payload later request (zero request) counted
  | replied request counted size clean =>
    exact .replied payload later request (zero request) counted shorter room size clean

theorem serve_turn {counts : List UInt64} {stream inBuf : Bytes} (outBuf : WireBuf)
    (size : counts.length = 1001) (room : inBuf.length = MAX_WIRE_SIZE) :
    Turn counts stream inBuf (serve counts stream inBuf outBuf.1).1
      (serve counts stream inBuf outBuf.1).2 := by
  have frame := getNextMsg_frame (Nat.le_of_eq room.symm) (by decide) stream
  rw [serve_eq]
  generalize getNextMsg stream inBuf MAX_WIRE_SIZE = got at frame
  cases got with
  | exited => exact Turn.exited
  | returned mSize buf rest =>
    dsimp only
    split_ifs with positive
    · obtain ⟨text, rfl, clean, short, -, rfl⟩ := frame.positive positive
      split
      next starved => exact .readBehind _ _
      next msg left ends => exact .parseError _ _
      next msg left ends =>
        refine respond_turn outBuf size (decode_request ends) (by simp; omega) ?_ _ _
        rw [length_decode ends, length_received (by omega)]
    · exact Turn.finished

end SocketPrograms.Vote
