import SocketPrograms.Vote.Codecs
import SocketPrograms.Vote.DelimFramer

/-! `Encode` as the sender of a message: what of the buffer goes to the peer, and what it
does with a buffer of any size. -/

namespace SocketPrograms.Vote
open Lib CString Format

def SentAlike (v : VoteInfo) : Prop :=
  ∀ outBuf outBuf' : WireBuf,
    (encode v outBuf.1 MAX_WIRE_SIZE).map written = (encode v outBuf'.1 MAX_WIRE_SIZE).map written

def SentFramed (v : VoteInfo) : Prop :=
  ∀ outBuf : WireBuf, ∃ size out, encode v outBuf.1 MAX_WIRE_SIZE = some (size, out) ∧
    size ≤ out.length ∧ NUL ∉ out.take size ∧ DELIM ∉ out.take size ∧
    putMsg out size = ((size : Int), out.take size ++ [DELIM]) ∧
    ∀ (rest : Bytes) (inBuf : WireBuf), getNextMsg (out.take size ++ DELIM :: rest) inBuf.1 MAX_WIRE_SIZE =
      .returned size (received inBuf.1 (out.take size)) rest

structure CleanPayload (v : VoteInfo) : Prop where
  alike : SentAlike v
  framed : SentFramed v

theorem putMsg_clean {buf : Bytes} {msgSize : Nat} (clean : DELIM ∉ buf.take msgSize) (positive : 0 < msgSize) :
    putMsg buf msgSize = ((msgSize : Int), buf.take msgSize ++ [DELIM]) := by
  rw [putMsg, if_neg clean, if_neg (Nat.ne_of_gt positive)]

theorem encode_snprintf {v : VoteInfo} (response : v.isResponse = true) {outBuf out : Bytes} {bufSize size : Nat}
    (done : encode v outBuf bufSize = some (size, out)) :
    ∃ rv first rv', snprintf outBuf 0 bufSize (encodeHead v) = some (rv, first) ∧
      snprintf first 0 ((bufSize - rv : Int) % 2 ^ 64).toNat (encodeCount v) = some (rv', out) ∧
      size = rv + rv' := by
  simp only [encode, response, if_true, Option.bind_eq_bind, Option.bind_eq_some_iff, Option.pure_def,
    Option.some.injEq, Prod.mk.injEq] at done
  obtain ⟨⟨rv, first⟩, head, ⟨rv', second⟩, count, total, rfl⟩ := done
  exact ⟨rv, first, rv', head, count, total.symm⟩

/-- The length of a response counts bytes behind both of its texts, which are still those
that were in the buffer before. -/
theorem stale_sent {v : VoteInfo} (response : v.isResponse = true) (outBuf : WireBuf) :
    ∃ size out, encode v outBuf.1 MAX_WIRE_SIZE = some (size, out) ∧
      max (encodeHead v).length (encodeCount v).length + 1 < size ∧
      out[max (encodeHead v).length (encodeCount v).length + 1]? =
        outBuf.1[max (encodeHead v).length (encodeCount v).length + 1]? := by
  have wide : 2 ≤ (encodeHead v).length := by simp [encodeHead, MAGIC, ascii]
  have digits := List.length_pos_of_ne_nil (decimal_ne_nil v.count.toNat)
  have narrow : (encodeCount v).length = (decimal v.count.toNat).length + 1 := by simp [encodeCount]
  obtain ⟨behind, stored, -⟩ := encode_response response outBuf
  obtain ⟨rv, first, rv', head, count, total⟩ := encode_snprintf response stored
  have kept := snprintf_frame (i := max (encodeHead v).length (encodeCount v).length + 1) head (by omega)
  have kept' := snprintf_frame (i := max (encodeHead v).length (encodeCount v).length + 1) count (by omega)
  exact ⟨_, _, stored, by omega, kept'.trans kept⟩

def ones : WireBuf := ⟨List.replicate MAX_WIRE_SIZE 1, List.length_replicate⟩

theorem not_sentAlike {v : VoteInfo} (response : v.isResponse = true) : ¬ SentAlike v := by
  intro alike
  obtain ⟨size, out, stored, inside, stale⟩ := stale_sent response zeros
  obtain ⟨size', out', stored', inside', stale'⟩ := stale_sent response ones
  have head := length_encodeHead v
  have count := length_encodeCount v
  have same := alike zeros ones
  rw [stored, stored'] at same
  simp only [Option.map_some, written, Option.some.injEq, Prod.mk.injEq] at same
  have byte := congrArg (·[max (encodeHead v).length (encodeCount v).length + 1]?) same.2
  have room : max (encodeHead v).length (encodeCount v).length + 1 < MAX_WIRE_SIZE := by
    have wire : MAX_WIRE_SIZE = 500 := rfl
    omega
  simp only [List.getElem?_take_of_lt inside, List.getElem?_take_of_lt inside', stale, stale', zeros, ones,
    List.getElem?_replicate_of_lt room] at byte
  exact absurd byte (by decide)

theorem not_sentFramed {v : VoteInfo} (response : v.isResponse = true) : ¬ SentFramed v := by
  intro framed
  obtain ⟨size, out, stored, -, noNul, -⟩ := framed zeros
  obtain ⟨behind, whole, -⟩ := encode_response response zeros
  rw [whole] at stored
  obtain ⟨rfl, rfl⟩ := by simpa using stored
  have positive : 0 < (encodeHead v).length := by simp [encodeHead, MAGIC, ascii]
  obtain ⟨more, same⟩ := Nat.exists_eq_add_of_lt positive
  apply noNul
  rw [same, Nat.zero_add, Nat.add_comm (more + 1), List.take_length_add_append, List.take_succ_cons]
  simp

theorem cleanPayload_request {v : VoteInfo} (request : v.isResponse = false) : CleanPayload v := by
  have head := length_encodeHead v
  have wire : MAX_WIRE_SIZE = 500 := rfl
  constructor
  · intro outBuf outBuf'
    obtain ⟨behind, first⟩ := encode_request request outBuf
    obtain ⟨behind', second⟩ := encode_request request outBuf'
    simp [first, second, written]
  · intro outBuf
    obtain ⟨behind, stored⟩ := encode_request request outBuf
    have payload : (encodeHead v ++ NUL :: behind).take (encodeHead v).length = encodeHead v := List.take_left
    have noNul : NUL ∉ encodeHead v := encodeHead_printable (by decide)
    have noDelim : DELIM ∉ encodeHead v := encodeHead_printable (by decide)
    have positive : 0 < (encodeHead v).length := by simp [encodeHead, MAGIC, ascii]
    refine ⟨_, _, stored, by simp, by rwa [payload], by rwa [payload], ?_, ?_⟩
    · exact putMsg_clean (by rwa [payload]) positive
    · intro rest inBuf
      have size : inBuf.1.length = MAX_WIRE_SIZE := inBuf.2
      rw [payload]
      exact getNextMsg_line (by omega) rest noDelim (by omega)

/-- What goes to the peer is a clean message for the requests only: what is sent of a response
depends on what was in the buffer before, and there is a NUL in it. -/
theorem cleanPayload_iff (v : VoteInfo) :
    (CleanPayload v ↔ v.isResponse = false) ∧ (SentAlike v ↔ v.isResponse = false) ∧
      (SentFramed v ↔ v.isResponse = false) := by
  cases kind : v.isResponse with
  | false =>
    have clean := cleanPayload_request kind
    exact ⟨iff_of_true clean rfl, iff_of_true clean.alike rfl, iff_of_true clean.framed rfl⟩
  | true =>
    have unlike := not_sentAlike kind
    have unframed := not_sentFramed kind
    simp only [Bool.true_eq_false, iff_false]
    exact ⟨fun clean => unlike clean.alike, unlike, unframed⟩

/-- The answer to the first vote for candidate 4, in two different buffers. -/
theorem answer_not_clean : ¬ CleanPayload ⟨1, 4, false, true⟩ := by
  intro clean
  have same := clean.alike zeros ones
  have differ : (encode ⟨1, 4, false, true⟩ zeros.1 MAX_WIRE_SIZE).map written ≠
      (encode ⟨1, 4, false, true⟩ ones.1 MAX_WIRE_SIZE).map written := by decide +kernel
  exact differ same

/-! ### Buffers of any size -/

/-- The length of the whole text of a message: the words and spaces, and the digits. -/
def wireSize (v : VoteInfo) : Nat :=
  if v.isResponse then 12 + (signedDecimal v.candidate.toInt).length + (decimal v.count.toNat).length
  else 10 + (signedDecimal v.candidate.toInt).length

/-- `size` behind the first `snprintf` of the first version, a `long`. -/
def longLeft (v : VoteInfo) (bufSize : UInt64) : Int := bufSize.toInt64.toInt - (encodeHead v).length

/-- `size` behind the first `snprintf` of the second version, a `size_t`. -/
def sizeLeft (v : VoteInfo) (bufSize : UInt64) : Int := (bufSize.toNat - (encodeHead v).length) % 2 ^ 64

/-- `Encode` stores nothing behind its buffer, returns no more than its size and counts the
room left without a wrap. -/
structure Respects (encode : VoteInfo → Bytes → Nat → Option (Nat × Bytes)) (left : VoteInfo → UInt64 → Int)
    (v : VoteInfo) (bufSize : UInt64) : Prop where
  inside : ∀ outBuf : Bytes, outBuf.length = bufSize.toNat →
    ∃ size out, encode v outBuf bufSize.toNat = some (size, out) ∧ size ≤ bufSize.toNat
  room : 0 ≤ left v bufSize ∧ left v bufSize ≤ bufSize.toNat

theorem toInt_toInt64 (n : UInt64) :
    n.toInt64.toInt = if 2 * n.toNat < 2 ^ 64 then (n.toNat : Int) else n.toNat - 2 ^ 64 := by
  rw [Int64.toInt, UInt64.toBitVec_toInt64, BitVec.toInt_eq_toNat_cond]
  rfl

/-- What the `long` is as the argument of the second `snprintf`. -/
theorem longLeft_passed (v : VoteInfo) (bufSize : UInt64) :
    longLeft v bufSize % 2 ^ 64 = (bufSize.toNat - (encodeHead v).length) % 2 ^ 64 := by
  rw [longLeft, toInt_toInt64]
  split_ifs <;> omega

theorem longLeft_eq (v : VoteInfo) {bufSize : UInt64} (small : bufSize.toNat < 2 ^ 63) :
    longLeft v bufSize = bufSize.toNat - (encodeHead v).length := by
  rw [longLeft, toInt_toInt64, if_pos (by omega)]

theorem small_of_longLeft {v : VoteInfo} {bufSize : UInt64} (left : 0 ≤ longLeft v bufSize) :
    bufSize.toNat < 2 ^ 63 := by
  by_contra large
  have range := bufSize.toNat_lt
  rw [longLeft, toInt_toInt64, if_neg (by omega)] at left
  omega

theorem sizeLeft_eq {v : VoteInfo} {bufSize : UInt64} (fits : (encodeHead v).length ≤ bufSize.toNat) :
    sizeLeft v bufSize = bufSize.toNat - (encodeHead v).length := by
  have range := bufSize.toNat_lt
  simp only [sizeLeft]
  omega

theorem wireSize_eq (v : VoteInfo) :
    wireSize v = (encodeHead v).length + if v.isResponse then (encodeCount v).length else 0 := by
  have kind : (if v.isInquiry then ascii ['i'] else ascii ['v']).length = 1 := by split <;> rfl
  have magic : MAGIC.length = 6 := rfl
  have letter : (ascii ['R']).length = 1 := rfl
  cases response : v.isResponse with
  | true =>
    simp only [wireSize, encodeHead, encodeCount, response, if_true, List.length_append, List.length_singleton,
      kind, magic, letter]
    omega
  | false =>
    simp only [wireSize, encodeHead, response, Bool.false_eq_true, if_false, List.length_append,
      List.length_singleton, List.length_nil, kind, magic]
    omega

theorem head_le_wireSize (v : VoteInfo) : (encodeHead v).length ≤ wireSize v := by
  rw [wireSize_eq]
  exact Nat.le_add_right _ _

theorem encode_returned {v : VoteInfo} {outBuf out : Bytes} {bufSize size : Nat}
    (done : encode v outBuf bufSize = some (size, out)) : size = wireSize v := by
  cases response : v.isResponse with
  | true =>
    obtain ⟨rv, first, rv', head, count, total⟩ := encode_snprintf response done
    rw [total, snprintf_returned head, snprintf_returned count]
    simp [wireSize_eq, response]
  | false =>
    simp only [encode, response, Bool.false_eq_true, if_false, Option.bind_eq_bind, Option.bind_eq_some_iff,
      Option.pure_def, Option.some.injEq, Prod.mk.injEq] at done
    obtain ⟨⟨rv, first⟩, head, rfl, rfl⟩ := done
    rw [snprintf_returned head]
    simp [wireSize_eq, response]

theorem encode2_returned {v : VoteInfo} {outBuf out : Bytes} {bufSize size : Nat}
    (done : Text2.encode v outBuf bufSize = some (size, out)) : size = wireSize v := by
  cases response : v.isResponse with
  | true =>
    simp only [Text2.encode, response, if_true, Option.bind_eq_bind, Option.bind_eq_some_iff, Option.pure_def,
      Option.some.injEq, Prod.mk.injEq] at done
    obtain ⟨⟨rv, first⟩, head, ⟨rv', second⟩, count, rfl, rfl⟩ := done
    rw [snprintf_returned head, snprintf_returned count]
    simp [wireSize_eq, response]
  | false =>
    rw [encode2_request response] at done
    exact encode_returned done

theorem encode_inside {v : VoteInfo} {bufSize : UInt64} (fits : wireSize v ≤ bufSize.toNat) {outBuf : Bytes}
    (whole : outBuf.length = bufSize.toNat) :
    ∃ size out, encode v outBuf bufSize.toNat = some (size, out) ∧ size ≤ bufSize.toNat := by
  have head := head_le_wireSize v
  have range := bufSize.toNat_lt
  obtain ⟨first, stored, size⟩ :=
    snprintf_inside outBuf (encodeHead v) (show 0 + bufSize.toNat ≤ outBuf.length by omega)
  have done : ∃ out, encode v outBuf bufSize.toNat = some (wireSize v, out) := by
    cases response : v.isResponse with
    | false => exact ⟨first, by simp [encode, stored, wireSize_eq, response]⟩
    | true =>
      obtain ⟨second, stored', -⟩ := snprintf_inside first (encodeCount v)
        (show 0 + ((bufSize.toNat - (encodeHead v).length : Int) % 2 ^ 64).toNat ≤ first.length by omega)
      refine ⟨second, ?_⟩
      simp only [encode, stored, response, if_true, Option.bind_eq_bind, Option.bind_some, stored', wireSize_eq,
        Option.pure_def]
  obtain ⟨out, done⟩ := done
  exact ⟨_, out, done, fits⟩

theorem encode2_inside {v : VoteInfo} {bufSize : UInt64} (fits : wireSize v ≤ bufSize.toNat) {outBuf : Bytes}
    (whole : outBuf.length = bufSize.toNat) :
    ∃ size out, Text2.encode v outBuf bufSize.toNat = some (size, out) ∧ size ≤ bufSize.toNat := by
  have head := head_le_wireSize v
  have range := bufSize.toNat_lt
  cases response : v.isResponse with
  | false =>
    rw [encode2_request response]
    exact encode_inside fits whole
  | true =>
    obtain ⟨first, stored, size⟩ :=
      snprintf_inside outBuf (encodeHead v) (show 0 + bufSize.toNat ≤ outBuf.length by omega)
    obtain ⟨second, stored', -⟩ := snprintf_inside first (encodeCount v) (show (encodeHead v).length +
      ((bufSize.toNat - (encodeHead v).length : Int) % 2 ^ 64).toNat ≤ first.length by omega)
    refine ⟨wireSize v, second, ?_, fits⟩
    simp only [Text2.encode, stored, response, if_true, Option.bind_eq_bind, Option.bind_some, stored',
      wireSize_eq, Option.pure_def]

/-- The versions keep to their buffer exactly when it has room for the whole text: neither
cuts a message that is too long. -/
theorem respects_iff (v : VoteInfo) (bufSize : UInt64) :
    (Respects encode longLeft v bufSize ↔ wireSize v ≤ bufSize.toNat ∧ bufSize.toNat < 2 ^ 63) ∧
    (Respects Text2.encode sizeLeft v bufSize ↔ wireSize v ≤ bufSize.toNat) := by
  have head := head_le_wireSize v
  have range := bufSize.toNat_lt
  refine ⟨⟨fun respects => ?_, fun ⟨fits, small⟩ => ?_⟩, fun respects => ?_, fun fits => ?_⟩
  · obtain ⟨size, out, done, bound⟩ := respects.inside (List.replicate bufSize.toNat 0) List.length_replicate
    rw [encode_returned done] at bound
    exact ⟨bound, small_of_longLeft respects.room.1⟩
  · have left := longLeft_eq v small
    exact ⟨fun outBuf => encode_inside fits, by omega, by omega⟩
  · obtain ⟨size, out, done, bound⟩ := respects.inside (List.replicate bufSize.toNat 0) List.length_replicate
    rwa [encode2_returned done] at bound
  · have left := sizeLeft_eq (show (encodeHead v).length ≤ bufSize.toNat by omega)
    exact ⟨fun outBuf => encode2_inside fits, by omega, by omega⟩

/-- The answer to the first vote for candidate 4, in a buffer of five bytes. -/
theorem answer_not_cut :
    ¬ Respects encode longLeft ⟨1, 4, false, true⟩ 5 ∧
      ¬ Respects Text2.encode sizeLeft ⟨1, 4, false, true⟩ 5 := by
  constructor
  · intro respects
    have left : ¬ 0 ≤ longLeft ⟨1, 4, false, true⟩ 5 := by decide +kernel
    exact left respects.room.1
  · intro respects
    have outside : Text2.encode ⟨1, 4, false, true⟩ [0, 0, 0, 0, 0] 5 = none := by decide +kernel
    obtain ⟨size, out, done, -⟩ := respects.inside [0, 0, 0, 0, 0] rfl
    have none : some (size, out) = none := done.symm.trans outside
    cases none

end SocketPrograms.Vote
