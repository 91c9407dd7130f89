import SocketPrograms.Vote.WireFormat

/-! `VoteEncodingText2.c`, a second version of the text encoding that neither program is
built with. The numbers are read at its end as in the first version. -/

namespace SocketPrograms.Vote.Text2
open Lib CString Format

/-- The token of the candidate, which every message has to have behind the third token. -/
def decodeCandidate (v : VoteInfo) : Reader (Bool × VoteInfo) := do
  match ← strtok DELIM_STR with
  | none => return (false, v)
  | some tok => decodeNumbers v tok

/-- The part of `Decode` from the third token on. It never resets `isResponse`. -/
def decodeBody (v : VoteInfo) : Reader (Bool × VoteInfo) := do
  match ← strtok DELIM_STR with
  | none => return (false, v)
  | some tok =>
    if tok = RESPONSE_STR then do
      let v := { v with isResponse := true }
      match ← strtok DELIM_STR with
      | none => return (false, v)
      | some _ => decodeCandidate v
    else decodeCandidate v

def decodeFrom (v : VoteInfo) : Reader (Bool × VoteInfo) := do
  let tok ← strtok DELIM_STR
  if tok ≠ some MAGIC then return (false, v)
  else do
    match ← strtok DELIM_STR with
    | none => return (false, v)
    | some tok =>
      if tok = VOTE_STR then decodeBody { v with isInquiry := false }
      else if tok = INQ_STR then decodeBody { v with isInquiry := true }
      else return (false, v)

def decode (inBuf : Bytes) (v : VoteInfo) : Option (Bool × VoteInfo × Bytes) :=
  match decodeFrom v ⟨[], inBuf⟩ with
  | none => none
  | some ((result, v), s) => some (result, v, s.buffer)

/-- `Encode`, with the count behind the text before it. The room left is a `size_t`. -/
def encode (v : VoteInfo) (outBuf : Bytes) (bufSize : Nat) : Option (Nat × Bytes) := do
  let (rv, outBuf) ← snprintf outBuf 0 bufSize (encodeHead v)
  let size : Int := (bufSize - rv) % 2 ^ 64
  if v.isResponse then
    let (rv', outBuf) ← snprintf outBuf rv size.toNat (encodeCount v)
    return (rv + rv', outBuf)
  else return (rv, outBuf)

def bodyOf (isInquiry : Bool) : List Bytes → Option VoteInfo
  | [] => none
  | third :: rest =>
      if third = RESPONSE_STR then
        match rest with
        | _ :: candidate :: count :: _ => some ⟨UInt64.ofInt (strtoll count), atoi candidate, isInquiry, true⟩
        | _ => none
      else
        match rest with
        | candidate :: _ => some ⟨0, atoi candidate, isInquiry, false⟩
        | [] => none

def voteOf (words : List Bytes) : Option VoteInfo := frontOf bodyOf words

theorem decodeBody_yields {v : VoteInfo} (request : v.isResponse = false) (rest : List Bytes) :
    Yields (decodeBody v) rest (bodyOf v.isInquiry rest) := by
  apply Yields.strtok
  cases rest with
  | nil => exact Yields.reject _
  | cons third rest =>
    simp only [List.head?_cons, List.tail_cons, bodyOf]
    split_ifs with response
    · apply Yields.strtok
      cases rest with
      | nil => exact Yields.reject _
      | cons skipped rest =>
        apply Yields.strtok
        cases rest with
        | nil => exact Yields.reject _
        | cons candidate rest =>
          have numbers := decodeNumbers_yields_count (v := { v with isResponse := true }) rfl candidate rest
          cases rest <;> exact numbers
    · apply Yields.strtok
      cases rest with
      | nil => exact Yields.reject _
      | cons candidate rest => exact decodeNumbers_yields request candidate rest

theorem decodeFrom_yields {v : VoteInfo} (request : v.isResponse = false) (words : List Bytes) :
    Yields (decodeFrom v) words (voteOf words) :=
  front_yields (fun isInquiry rest => decodeBody_yields (v := { v with isInquiry := isInquiry }) request rest) words

theorem decode_accepted {buf : Bytes} (nul : NUL ∈ buf) {v : VoteInfo} (request : v.isResponse = false) :
    (decode buf v).map accepted = some (voteOf (tokens buf)) := by
  obtain ⟨result, w, s, ends, same⟩ := (decodeFrom_yields request (tokens buf)).reads nul
  simp [decode, ends, accepted, same]

/-- What `Encode` leaves of a response: the whole text and a NUL. -/
theorem encode_response {v : VoteInfo} (response : v.isResponse = true) (outBuf : WireBuf) :
    ∃ behind, encode v outBuf.1 MAX_WIRE_SIZE =
      some ((encodeHead v ++ encodeCount v).length, encodeHead v ++ encodeCount v ++ NUL :: behind) := by
  obtain ⟨behind, first, whole⟩ := encodeHead_stored v outBuf
  have head := length_encodeHead v
  have count := length_encodeCount v
  have wire : MAX_WIRE_SIZE = 500 := rfl
  have second := snprintf_fits (encodeHead v ++ NUL :: behind) (encodeCount v) (encodeHead v).length
    (MAX_WIRE_SIZE - (encodeHead v).length) (by omega) (by omega)
  rw [List.take_left, ← List.append_assoc, List.append_assoc _ [NUL]] at second
  have stored : encode v outBuf.1 MAX_WIRE_SIZE = some ((encodeHead v ++ encodeCount v).length,
      encodeHead v ++ encodeCount v ++ NUL ::
        (encodeHead v ++ NUL :: behind).drop ((encodeHead v).length + ((encodeCount v).length + 1))) := by
    simp only [encode, first, response, if_true, Option.bind_eq_bind, Option.bind_some, List.length_append]
    rw [room_left, second]
    rfl
  exact ⟨_, stored⟩

end SocketPrograms.Vote.Text2
