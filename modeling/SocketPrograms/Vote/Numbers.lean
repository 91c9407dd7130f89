import SocketPrograms.Vote.WireFormat
import SocketPrograms.Vote.Turn

/-! The numbers of a message. `Decode` checks none of them: the candidate is what `atoi` makes
of its token, and a request comes back from its text unchanged. -/

namespace SocketPrograms.Vote
open Lib CString Format

def kindStr (isInquiry : Bool) : Bytes := if isInquiry then INQ_STR else VOTE_STR

/-- Words that are a message: its kind, the token of the candidate and, in a response, the
token of the count. -/
inductive Fields : List Bytes → Bool → Bytes → Option Bytes → Prop where
  | request {isInquiry : Bool} {candidate : Bytes} {more : List Bytes} (plain : candidate ≠ RESPONSE_STR) :
      Fields (MAGIC :: kindStr isInquiry :: candidate :: more) isInquiry candidate none
  | response {isInquiry : Bool} {candidate count : Bytes} {more : List Bytes} :
      Fields (MAGIC :: kindStr isInquiry :: RESPONSE_STR :: candidate :: count :: more) isInquiry
        candidate (some count)

def record (isInquiry : Bool) (candidate : Bytes) (count : Option Bytes) : VoteInfo :=
  ⟨count.elim 0 fun tok => UInt64.ofInt (strtoll tok), atoi candidate, isInquiry, count.isSome⟩

/-- A record against the tokens it is made of; a count is right as far as `strtoll` reaches. -/
structure Converted (v : VoteInfo) (isInquiry : Bool) (candidate : Bytes) (count : Option Bytes) : Prop where
  kind : v.isInquiry = isInquiry
  response : v.isResponse = count.isSome
  named : v.candidate = atoi candidate
  exact : ∀ i : Int32, Numeral candidate i.toInt → v.candidate = i
  request : count = none → v.count = 0
  count : ∀ token ∈ count, ∀ n : UInt64, Numeral token n.toNat → n.toNat < 2 ^ 63 → v.count = n

theorem voteOf_kind (isInquiry : Bool) (rest : List Bytes) :
    voteOf (MAGIC :: kindStr isInquiry :: rest) = bodyOf isInquiry rest := by
  have other : INQ_STR ≠ VOTE_STR := by decide
  cases isInquiry <;> simp [voteOf, frontOf, kindStr, other]

theorem Fields.vote {words : List Bytes} {isInquiry : Bool} {candidate : Bytes} {count : Option Bytes}
    (fields : Fields words isInquiry candidate count) : voteOf words = some (record isInquiry candidate count) := by
  cases fields with
  | request plain =>
    rw [voteOf_kind, bodyOf_request plain]
    rfl
  | response =>
    rw [voteOf_kind, bodyOf_response]
    rfl

theorem fields_of_body {isInquiry : Bool} {rest : List Bytes} {w : VoteInfo} (vote : bodyOf isInquiry rest = some w) :
    ∃ candidate count, Fields (MAGIC :: kindStr isInquiry :: rest) isInquiry candidate count := by
  unfold bodyOf at vote
  split at vote
  next => cases vote
  next third rest =>
    split_ifs at vote with response
    · subst response
      split at vote
      next candidate count more => exact ⟨candidate, some count, Fields.response⟩
      next => cases vote
    · exact ⟨third, none, Fields.request response⟩

theorem fields_of_vote {words : List Bytes} {w : VoteInfo} (vote : voteOf words = some w) :
    ∃ isInquiry candidate count, Fields words isInquiry candidate count := by
  unfold voteOf frontOf at vote
  split at vote
  next magic kind rest =>
    split_ifs at vote with first second third
    · subst first second
      exact ⟨false, fields_of_body vote⟩
    · subst first third
      exact ⟨true, fields_of_body vote⟩
  next => cases vote

theorem ofInt_count {token : Bytes} {n : UInt64} (num : Numeral token n.toNat) (small : n.toNat < 2 ^ 63) :
    UInt64.ofInt (strtoll token) = n := by
  rw [strtoll_exact num (by omega) (by omega), UInt64.ofInt]
  have whole : ((n.toNat : Int) % 2 ^ 64).toNat = n.toNat := by omega
  rw [whole, UInt64.ofNat_toNat]

theorem record_converted (isInquiry : Bool) (candidate : Bytes) (count : Option Bytes) :
    Converted (record isInquiry candidate count) isInquiry candidate count := by
  refine ⟨rfl, rfl, rfl, fun i num => atoi_exact num, ?_, ?_⟩
  · rintro rfl
    rfl
  · intro token member n num small
    obtain rfl : count = some token := member
    exact ofInt_count num small

/-! ### The server -/

theorem respond_slots {counts : List UInt64} (rest left : Bytes) (msg : VoteInfo) (outBuf : WireBuf)
    (size : counts.length = 1001) (c : Nat) (bound : c ≤ MAX_CANDIDATE) :
    (respond counts rest left msg outBuf.1).1.counts[c]? =
      counts[c]?.map fun n => if (Event.processed msg none).votes c then n + 1 else n := by
  obtain ⟨s, events, responded, response⟩ := respond_response rest left msg outBuf size
  rw [responded]
  cases response with
  | ignored response => simp [Event.votes, response]
  | refused request counted => exact counted.slots c bound
  | replied request counted size clean => exact counted.slots c bound

theorem serve_slots {counts : List UInt64} {stream inBuf buf rest : Bytes} {mSize : Int} (outBuf : WireBuf)
    (size : counts.length = 1001) (got : getNextMsg stream inBuf MAX_WIRE_SIZE = .returned mSize buf rest)
    (message : 0 < mSize) (nul : NUL ∈ buf) (c : Nat) (bound : c ≤ MAX_CANDIDATE) :
    (serve counts stream inBuf outBuf.1).1.counts[c]? = counts[c]?.map fun n =>
      if (voteOf (tokens buf)).any fun msg => (Event.processed msg none).votes c then n + 1 else n := by
  have same := decode_accepted nul VoteInfo.zero
  obtain ⟨⟨result, msg, left⟩, done, equal⟩ := Option.map_eq_some_iff.mp same
  simp only [serve_eq, got, if_pos message, done, ← equal]
  cases result with
  | false => simp [accepted]
  | true => simpa [accepted] using respond_slots rest left msg outBuf size c bound

def Validated (buf : Bytes) : Prop :=
  ∀ v w left, decode buf v = some (true, w, left) → ∃ candidate count,
    Fields (tokens buf) w.isInquiry candidate count ∧ Numeral candidate w.candidate.toInt ∧
      ∀ token ∈ count, Numeral token w.count.toNat

/-- `Decode` accepts the messages, and reads their numbers as `atoi` and `strtoll` do. -/
theorem decode_converted {buf : Bytes} (nul : NUL ∈ buf) (v : VoteInfo) :
    ∃ result w left, decode buf v = some (result, w, left) ∧
      (result = true ↔ ∃ isInquiry candidate count, Fields (tokens buf) isInquiry candidate count) ∧
      ∀ isInquiry candidate count, Fields (tokens buf) isInquiry candidate count →
        Converted w isInquiry candidate count := by
  have same := decode_accepted nul v
  obtain ⟨⟨result, w, left⟩, done, equal⟩ := Option.map_eq_some_iff.mp same
  have accepts (isInquiry : Bool) (candidate : Bytes) (count : Option Bytes)
      (fields : Fields (tokens buf) isInquiry candidate count) :
      result = true ∧ w = record isInquiry candidate count := by
    rw [fields.vote] at equal
    cases result with
    | true => exact ⟨rfl, by simpa [accepted] using equal⟩
    | false => simp [accepted] at equal
  have accepted_iff : result = true ↔
      ∃ isInquiry candidate count, Fields (tokens buf) isInquiry candidate count := by
    constructor
    · intro right
      rw [right] at equal
      exact fields_of_vote equal.symm
    · intro message
      obtain ⟨isInquiry, candidate, count, fields⟩ := message
      exact (accepts isInquiry candidate count fields).1
  have converted (isInquiry : Bool) (candidate : Bytes) (count : Option Bytes)
      (fields : Fields (tokens buf) isInquiry candidate count) : Converted w isInquiry candidate count := by
    rw [(accepts isInquiry candidate count fields).2]
    exact record_converted isInquiry candidate count
  exact ⟨result, w, left, done, accepted_iff, converted⟩

theorem not_votes {words : List Bytes} {msg : VoteInfo} (vote : voteOf words = some msg) {c : Nat}
    (other : ∀ candidate, Fields words false candidate none → (atoi candidate).toInt ≠ c) :
    (Event.processed msg none).votes c = false := by
  obtain ⟨isInquiry, candidate, count, fields⟩ := fields_of_vote vote
  obtain rfl : msg = record isInquiry candidate count := by simpa [fields.vote, eq_comm] using vote
  cases isInquiry with
  | true => simp [Event.votes, record]
  | false =>
    cases count with
    | some token => simp [Event.votes, record]
    | none => simp [Event.votes, record, other candidate fields]

/-- `Decode` accepts a message with any tokens for its numbers, as `atoi` and `strtoll` read
them, and the server counts a vote for the candidate that `atoi` gives. -/
theorem numbers_converted {buf : Bytes} (nul : NUL ∈ buf) :
    (∀ v, ∃ result w left, decode buf v = some (result, w, left) ∧
      (result = true ↔ ∃ isInquiry candidate count, Fields (tokens buf) isInquiry candidate count) ∧
      ∀ isInquiry candidate count, Fields (tokens buf) isInquiry candidate count →
        Converted w isInquiry candidate count) ∧
    ∀ counts stream inBuf rest mSize, ∀ outBuf : WireBuf, counts.length = 1001 →
      getNextMsg stream inBuf MAX_WIRE_SIZE = .returned mSize buf rest → 0 < mSize →
      ∀ c : Nat, c ≤ MAX_CANDIDATE →
        (∀ candidate, Fields (tokens buf) false candidate none → (atoi candidate).toInt = c →
          (serve counts stream inBuf outBuf.1).1.counts[c]? = counts[c]?.map (· + 1)) ∧
        ((∀ candidate, Fields (tokens buf) false candidate none → (atoi candidate).toInt ≠ c) →
          (serve counts stream inBuf outBuf.1).1.counts[c]? = counts[c]?) := by
  constructor
  · exact decode_converted nul
  · intro counts stream inBuf rest mSize outBuf size got message c bound
    have slot := serve_slots outBuf size got message nul c bound
    constructor
    · intro candidate fields here
      simp [slot, fields.vote, record, Event.votes, here]
    · intro other
      rw [slot]
      cases vote : voteOf (tokens buf) with
      | none => simp
      | some msg => simp [not_votes vote other]

def partlyNumeric : Bytes := ascii ['V', 'o', 't', 'i', 'n', 'g', ' ', 'v', ' ', '4', 'x']

theorem partlyNumeric_words :
    NUL ∈ received zeros.1 partlyNumeric ∧
      tokens (received zeros.1 partlyNumeric) = [MAGIC, VOTE_STR, ascii ['4', 'x']] := by decide +kernel

theorem partly_numeric_counted :
    ¬ Validated (received zeros.1 partlyNumeric) ∧
      (serve (start : State).counts (partlyNumeric ++ [DELIM]) zeros.1 zeros.1).1.counts[4]? = some 1 := by
  refine ⟨fun validated => ?_, by decide +kernel⟩
  obtain ⟨nul, words⟩ := partlyNumeric_words
  have vote : voteOf (tokens (received zeros.1 partlyNumeric)) = some ⟨0, 4, false, false⟩ := by
    rw [words]
    decide
  obtain ⟨left, done⟩ := (decode_true_iff nul VoteInfo.zero _).mpr vote
  obtain ⟨candidate, count, fields, num, -⟩ := validated _ _ _ done
  generalize same : tokens (received zeros.1 partlyNumeric) = found at fields
  rw [words] at same
  cases fields with
  | request plain =>
    obtain ⟨-, rfl, -⟩ := by simpa using same
    exact num.not_mem (b := 120) (by decide) (by decide)
  | response => simp at same

theorem partly_numeric_converted :
    (serve (start : State).counts (partlyNumeric ++ [DELIM]) zeros.1 zeros.1).1.counts[4]? =
      (start : State).counts[4]?.map (· + 1) := by
  obtain ⟨nul, words⟩ := partlyNumeric_words
  have fields : Fields (tokens (received zeros.1 partlyNumeric)) false (ascii ['4', 'x']) none := by
    have request : Fields [MAGIC, kindStr false, ascii ['4', 'x']] false (ascii ['4', 'x']) none :=
      Fields.request (by decide)
    rw [words]
    exact request
  exact ((numbers_converted nul).2 (start : State).counts (partlyNumeric ++ [DELIM]) zeros.1 [] 11 zeros
    List.length_replicate (by decide +kernel) (by decide) 4 (by decide)).1 _ fields (by decide)

/-! ### Requests -/

theorem words_front (isInquiry : Bool) (text : Bytes) :
    words DELIM_STR (MAGIC ++ 32 :: (kindStr isInquiry ++ 32 :: text)) =
      MAGIC :: kindStr isInquiry :: words DELIM_STR text := by
  have kind : DELIM_STR ∉ kindStr isInquiry ∧ kindStr isInquiry ≠ [] := by cases isInquiry <;> decide
  have first := words_word DELIM_STR (kindStr isInquiry ++ 32 :: text) (show DELIM_STR ∉ MAGIC by decide) (by decide)
  have second := words_word DELIM_STR text kind.1 kind.2
  exact first.trans (congrArg (MAGIC :: ·) second)

theorem encodeHead_request {v : VoteInfo} (request : v.isResponse = false) :
    encodeHead v = MAGIC ++ 32 :: (kindStr v.isInquiry ++ 32 :: 32 :: signedDecimal v.candidate.toInt) := by
  cases kind : v.isInquiry <;> simp [encodeHead, request, kind, kindStr, VOTE_STR, INQ_STR]

theorem encode_request {v : VoteInfo} (request : v.isResponse = false) (outBuf : WireBuf) :
    ∃ behind, encode v outBuf.1 MAX_WIRE_SIZE = some ((encodeHead v).length, encodeHead v ++ NUL :: behind) := by
  obtain ⟨behind, stored, -⟩ := encodeHead_stored v outBuf
  exact ⟨behind, by simp [encode, stored, request]⟩

theorem encodeHead_printable {v : VoteInfo} {b : UInt8} (control : b.toNat < 32) : b ∉ encodeHead v := by
  have num := signedDecimal_numeral v.candidate.toInt
  have digits : b ∉ signedDecimal v.candidate.toInt := num.not_mem (by omega)
  have other {c : UInt8} (printable : 32 ≤ c.toNat) : b ≠ c := fun same => by
    rw [same] at control
    omega
  have magic : b ∉ MAGIC := by
    simp only [MAGIC, ascii, List.map_cons, List.map_nil, List.mem_cons, List.not_mem_nil, or_false, not_or]
    exact ⟨other (by decide), other (by decide), other (by decide), other (by decide), other (by decide),
      other (by decide)⟩
  have space : b ≠ 32 := other (by decide)
  have kinds : b ∉ ascii ['i'] ∧ b ∉ ascii ['v'] ∧ b ∉ ascii ['R'] := by
    simp only [ascii, List.map_cons, List.map_nil, List.mem_singleton]
    exact ⟨other (by decide), other (by decide), other (by decide)⟩
  simp only [encodeHead, List.mem_append, List.mem_singleton, not_or]
  refine ⟨⟨⟨⟨⟨⟨magic, space⟩, ?_⟩, space⟩, ?_⟩, space⟩, digits⟩
  · split <;> simp [kinds]
  · split <;> simp [kinds]

theorem request_words {v : VoteInfo} (request : v.isResponse = false) (behind : Bytes) :
    tokens (encodeHead v ++ NUL :: behind) = [MAGIC, kindStr v.isInquiry, signedDecimal v.candidate.toInt] := by
  have num := signedDecimal_numeral v.candidate.toInt
  have clean : NUL ∉ encodeHead v := encodeHead_printable (by decide)
  have number := words_last DELIM_STR (num.not_mem (by decide)) num.ne_nil
  have gap := words_skip DELIM_STR (signedDecimal v.candidate.toInt)
  rw [tokens, cString_append_nul clean, encodeHead_request request, words_front, ← number, ← gap]
  rfl

theorem request_vote {v : VoteInfo} (request : v.isResponse = false) (zero : v.count = 0) (behind : Bytes) :
    voteOf (tokens (encodeHead v ++ NUL :: behind)) = some v := by
  have num := signedDecimal_numeral v.candidate.toInt
  have plain : signedDecimal v.candidate.toInt ≠ RESPONSE_STR := by
    intro same
    exact num.not_mem (b := 82) (by decide) (same ▸ by decide)
  rw [request_words request, voteOf_kind, bodyOf_request plain, atoi_exact num, ← zero, ← request]

/-- A request comes back from its text, over any record. -/
theorem request_recovered {v : VoteInfo} (request : v.isResponse = false) (zero : v.count = 0) (w : VoteInfo)
    (outBuf : WireBuf) :
    ∃ size out left, encode v outBuf.1 MAX_WIRE_SIZE = some (size, out) ∧ size ≤ 21 ∧ out[size]? = some NUL ∧
      decode out w = some (true, v, left) := by
  obtain ⟨behind, encoded⟩ := encode_request request outBuf
  obtain ⟨left, done⟩ := (decode_true_iff (by simp) w v).mpr (request_vote request zero behind)
  have short : (encodeHead v).length ≤ 21 := by
    have digits := length_signedDecimal_le (i := v.candidate.toInt) (by
      have low := v.candidate.le_toInt
      have high := v.candidate.toInt_lt
      omega)
    have magic : MAGIC.length = 6 := rfl
    have kind : (kindStr v.isInquiry).length = 1 := by cases v.isInquiry <;> rfl
    rw [encodeHead_request request]
    simp only [List.length_append, List.length_cons, magic, kind]
    omega
  exact ⟨_, _, left, encoded, short, by simp, done⟩

theorem request_recovered_least :
    ∃ size out left, encode ⟨0, -2147483648, true, false⟩ zeros.1 MAX_WIRE_SIZE = some (size, out) ∧ size ≤ 21 ∧
      out[size]? = some NUL ∧
      decode out ⟨7, 3, false, true⟩ = some (true, ⟨0, -2147483648, true, false⟩, left) :=
  request_recovered rfl rfl ⟨7, 3, false, true⟩ zeros

end SocketPrograms.Vote
