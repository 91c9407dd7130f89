import SocketPrograms.Vote.EncodingText2
import SocketPrograms.Vote.Numbers

/-! The two versions of the text encoding against each other: where they write the same
bytes, where they read the same message, and what the first makes of the text of the second. -/

namespace SocketPrograms.Vote
open Lib CString Format

def Valid (v : VoteInfo) : Prop := InRange v.candidate ∧ (v.isResponse = false → v.count = 0)

def written (out : Nat × Bytes) : Nat × Bytes := (out.1, out.2.take out.1)

def EncodesAlike (v : VoteInfo) (outBuf outBuf' : WireBuf) : Prop :=
  (encode v outBuf.1 MAX_WIRE_SIZE).map written = (Text2.encode v outBuf'.1 MAX_WIRE_SIZE).map written

def DecodesAlike (buf : Bytes) : Prop :=
  ∃ msg, (decode buf VoteInfo.zero).map accepted = some msg ∧
    (Text2.decode buf VoteInfo.zero).map accepted = some msg

/-- The words behind the kind mean the same when the first number is skipped. -/
def SkipsAlike : List Bytes → Prop
  | [] => True
  | third :: rest =>
      if third = RESPONSE_STR then
        match rest with
        | candidate :: count :: more =>
          ∃ last ∈ more.head?, atoi candidate = atoi count ∧ strtoll count = strtoll last
        | _ => True
      else ∃ fourth ∈ rest.head?, atoi third = atoi fourth

def MeansAlike : List Bytes → Prop
  | magic :: kind :: rest => magic = MAGIC → kind = VOTE_STR ∨ kind = INQ_STR → SkipsAlike rest
  | _ => True

theorem skipsAlike_iff (isInquiry : Bool) (rest : List Bytes) :
    bodyOf isInquiry rest = Text2.bodyOf isInquiry rest ↔ SkipsAlike rest := by
  cases rest with
  | nil => simp [bodyOf, Text2.bodyOf, SkipsAlike]
  | cons third rest =>
    by_cases response : third = RESPONSE_STR
    · subst response
      cases rest with
      | nil => simp [bodyOf, Text2.bodyOf, SkipsAlike]
      | cons candidate rest =>
        cases rest with
        | nil => simp [bodyOf, Text2.bodyOf, SkipsAlike]
        | cons count rest =>
          cases rest with
          | nil => simp [bodyOf, Text2.bodyOf, SkipsAlike]
          | cons last more => simp [bodyOf, Text2.bodyOf, SkipsAlike, ofInt_strtoll_inj, and_comm]
    · cases rest <;> simp [bodyOf, Text2.bodyOf, SkipsAlike, response]

theorem meansAlike_iff (words : List Bytes) : voteOf words = Text2.voteOf words ↔ MeansAlike words := by
  unfold voteOf Text2.voteOf frontOf MeansAlike
  split
  next magic kind rest =>
    have kinds : INQ_STR ≠ VOTE_STR := by decide
    split_ifs with first second third
    · simp [first, second, skipsAlike_iff]
    · simp [first, third, kinds, skipsAlike_iff]
    · simp [second, third]
    · simp [first]
  next => simp

theorem decodesAlike_iff {buf : Bytes} (nul : NUL ∈ buf) : DecodesAlike buf ↔ MeansAlike (tokens buf) := by
  have first := decode_accepted nul VoteInfo.zero
  have second := Text2.decode_accepted nul (v := VoteInfo.zero) rfl
  simp [DecodesAlike, first, second, ← meansAlike_iff, eq_comm]

theorem encode2_request {v : VoteInfo} (request : v.isResponse = false) (outBuf : Bytes) (bufSize : Nat) :
    Text2.encode v outBuf bufSize = encode v outBuf bufSize := by
  simp [Text2.encode, encode, request]

theorem encodesAlike_iff (v : VoteInfo) (outBuf outBuf' : WireBuf) :
    EncodesAlike v outBuf outBuf' ↔ v.isResponse = false := by
  unfold EncodesAlike
  cases response : v.isResponse with
  | false =>
    obtain ⟨behind, first⟩ := encode_request response outBuf
    obtain ⟨behind', second⟩ := encode_request response outBuf'
    simp [encode2_request response, first, second, written]
  | true =>
    obtain ⟨behind, first, -⟩ := encode_response response outBuf
    obtain ⟨behind', second⟩ := Text2.encode_response response outBuf'
    refine iff_of_false (fun same => ?_) (by simp)
    have positive : (encodeHead v).length + (encodeCount v).length ≠ 0 := by simp [encodeCount]
    have space : (encodeCount v ++ NUL :: behind).head? = some 32 := rfl
    have magic : (encodeHead v ++ encodeCount v ++ NUL :: behind').head? = some 86 := rfl
    have heads := congrArg (Option.map fun out : Nat × Bytes => out.2.head?) same
    simp only [first, second, written, Option.map_some, List.length_append, List.head?_take, positive, if_false,
      space, magic] at heads
    exact absurd heads (by decide)

/-- The versions write alike exactly the requests, and read alike exactly the messages in
which the token that the second skips makes no difference. -/
theorem codecs_alike_iff (v : VoteInfo) (outBuf outBuf' : WireBuf) {buf : Bytes} (nul : NUL ∈ buf) :
    (EncodesAlike v outBuf outBuf' ↔ v.isResponse = false) ∧ (DecodesAlike buf ↔ MeansAlike (tokens buf)) :=
  ⟨encodesAlike_iff v outBuf outBuf', decodesAlike_iff nul⟩

theorem codecs_alike_four_four :
    EncodesAlike ⟨0, 4, true, false⟩ zeros zeros ∧
      DecodesAlike (ascii ['V', 'o', 't', 'i', 'n', 'g', ' ', 'v', ' ', '4', ' ', '4'] ++ [NUL]) := by
  have alike := codecs_alike_iff ⟨0, 4, true, false⟩ zeros zeros
    (show NUL ∈ ascii ['V', 'o', 't', 'i', 'n', 'g', ' ', 'v', ' ', '4', ' ', '4'] ++ [NUL] by decide)
  have words : tokens (ascii ['V', 'o', 't', 'i', 'n', 'g', ' ', 'v', ' ', '4', ' ', '4'] ++ [NUL]) =
    [MAGIC, VOTE_STR, ascii ['4'], ascii ['4']] := by decide +kernel
  have plain : ascii ['4'] ≠ RESPONSE_STR := by decide
  exact ⟨alike.1.mpr rfl, alike.2.mpr (by simp [words, MeansAlike, SkipsAlike, plain])⟩

/-- The answer to the first vote for candidate 4, and the request for it. -/
theorem codecs_differ :
    Valid ⟨1, 4, false, true⟩ ∧ ¬ EncodesAlike ⟨1, 4, false, true⟩ zeros zeros ∧
      ¬ DecodesAlike (encodeHead ⟨0, 4, false, false⟩ ++ [NUL]) := by
  refine ⟨⟨by decide, by simp⟩, ?_, ?_⟩
  · unfold EncodesAlike
    decide +kernel
  rintro ⟨msg, first, second⟩
  have differ : (decode (encodeHead ⟨0, 4, false, false⟩ ++ [NUL]) VoteInfo.zero).map accepted ≠
      (Text2.decode (encodeHead ⟨0, 4, false, false⟩ ++ [NUL]) VoteInfo.zero).map accepted := by decide +kernel
  exact differ (first.trans second.symm)

/-! ### From the second version to the first -/

def Interoperates (v w : VoteInfo) (outBuf : WireBuf) : Prop :=
  ∃ size out left, Text2.encode v outBuf.1 MAX_WIRE_SIZE = some (size, out) ∧
    decode (out.take size ++ [NUL]) w = some (true, v, left)

theorem response_words {v : VoteInfo} (response : v.isResponse = true) (behind : Bytes) :
    tokens (encodeHead v ++ encodeCount v ++ NUL :: behind) =
      [MAGIC, kindStr v.isInquiry, RESPONSE_STR, signedDecimal v.candidate.toInt, decimal v.count.toNat] := by
  have candidate := signedDecimal_numeral v.candidate.toInt
  have count := decimal_numeral v.count.toNat
  have text : encodeHead v ++ encodeCount v = MAGIC ++ 32 :: (kindStr v.isInquiry ++ 32 ::
      (RESPONSE_STR ++ 32 :: (signedDecimal v.candidate.toInt ++ 32 :: decimal v.count.toNat))) := by
    cases kind : v.isInquiry <;>
      simp [encodeHead, encodeCount, response, kind, kindStr, VOTE_STR, INQ_STR, RESPONSE_STR]
  have clean : NUL ∉ encodeHead v ++ encodeCount v := by
    have head : NUL ∉ encodeHead v := encodeHead_printable (by decide)
    have space : NUL ≠ 32 := by decide
    have digits : NUL ∉ decimal v.count.toNat := count.not_mem (by decide)
    simp [encodeCount, head, space, digits]
  have third := words_word DELIM_STR (signedDecimal v.candidate.toInt ++ 32 :: decimal v.count.toNat)
    (show DELIM_STR ∉ RESPONSE_STR by decide) (by decide)
  have fourth := words_word DELIM_STR (decimal v.count.toNat) (candidate.not_mem (by decide)) candidate.ne_nil
  have last := words_last DELIM_STR (count.not_mem (by decide)) count.ne_nil
  rw [tokens, cString_append_nul clean, text, words_front]
  rw [last] at fourth
  exact congrArg (MAGIC :: kindStr v.isInquiry :: ·) (third.trans (congrArg (RESPONSE_STR :: ·) fourth))

theorem response_vote {v : VoteInfo} (response : v.isResponse = true) (behind : Bytes) :
    voteOf (tokens (encodeHead v ++ encodeCount v ++ NUL :: behind)) =
      some { v with count := UInt64.ofInt (strtoll (decimal v.count.toNat)) } := by
  rw [response_words response, voteOf_kind, bodyOf_response,
    atoi_exact (signedDecimal_numeral v.candidate.toInt), ← response]

/-- `%llu` and `strtoll` agree below `2 ^ 63`. -/
theorem count_exact_iff (n : UInt64) : UInt64.ofInt (strtoll (decimal n.toNat)) = n ↔ n.toNat < 2 ^ 63 := by
  constructor
  · intro same
    have value := strtoll_numeral (decimal_numeral n.toNat)
    have bits := congrArg UInt64.toNat same
    simp only [UInt64.ofInt, UInt64.toNat_ofNat'] at bits
    omega
  · exact ofInt_count (decimal_numeral n.toNat)

theorem interoperates_iff {v : VoteInfo} (valid : Valid v) (w : VoteInfo) (outBuf : WireBuf) :
    Interoperates v w outBuf ↔ v.count.toNat < 2 ^ 63 := by
  cases response : v.isResponse with
  | false =>
    have zero := valid.2 response
    obtain ⟨behind, encoded⟩ := encode_request response outBuf
    have same : Text2.encode v outBuf.1 MAX_WIRE_SIZE = encode v outBuf.1 MAX_WIRE_SIZE := by
      simp [Text2.encode, encode, response]
    refine iff_of_true ?_ (by rw [zero]; decide)
    obtain ⟨left, done⟩ := (decode_true_iff (by simp) w v).mpr (request_vote response zero [])
    exact ⟨_, _, left, same.trans encoded, by rwa [List.take_left]⟩
  | true =>
    obtain ⟨behind, encoded⟩ := Text2.encode_response response outBuf
    have vote := response_vote response []
    rw [← count_exact_iff]
    constructor
    · rintro ⟨size, out, left, encoded', done⟩
      rw [encoded, Option.some.injEq, Prod.mk.injEq] at encoded'
      obtain ⟨rfl, rfl⟩ := encoded'
      rw [List.take_left] at done
      have same := (decode_true_iff (by simp) w v).mp ⟨left, done⟩
      rw [vote, Option.some.injEq] at same
      exact congrArg VoteInfo.count same
    · intro same
      rw [same] at vote
      obtain ⟨left, done⟩ := (decode_true_iff (by simp) w v).mpr vote
      exact ⟨_, _, left, encoded, by rwa [List.take_left]⟩

theorem interoperates_one : Interoperates ⟨1, 4, false, true⟩ VoteInfo.zero zeros :=
  (interoperates_iff ⟨by decide, by simp⟩ VoteInfo.zero zeros).mpr (by decide)

/-- The least count that `strtoll` does not reach. -/
theorem half_count_lost :
    Valid ⟨9223372036854775808, 4, false, true⟩ ∧
      ¬ Interoperates ⟨9223372036854775808, 4, false, true⟩ VoteInfo.zero zeros := by
  refine ⟨⟨by decide, by simp⟩, ?_⟩
  rintro ⟨size, out, left, encoded, done⟩
  have read : (Text2.encode ⟨9223372036854775808, 4, false, true⟩ zeros.1 MAX_WIRE_SIZE).map (fun e =>
      (decode (e.2.take e.1 ++ [NUL]) VoteInfo.zero).map fun out => out.2.1.count) =
        some (some 9223372036854775807) := by decide +kernel
  rw [encoded, Option.map_some, done] at read
  simp at read

end SocketPrograms.Vote
