import SocketPrograms.Vote.EncodingText

/-! What `Decode` makes of a response that `Encode` has written. The text of the count lies
over the start of the response, so that the first token is a number. -/

namespace SocketPrograms.Vote
open Lib CString Format

/-- `Encode` and then `Decode` of the bytes it produced, with a NUL at the returned length,
gives the record back. `w` is what the record held before. -/
def Recovers (v w : VoteInfo) (outBuf : WireBuf) : Prop :=
  ∃ size out left, encode v outBuf.1 MAX_WIRE_SIZE = some (size, out) ∧
    decode (out.take size ++ [NUL]) w = some (true, v, left)

def StartsWithCount (text : Bytes) : Prop := ∃ v more, text = encodeCount v ++ NUL :: more

theorem decimal_clean (n : Nat) : NUL ∉ decimal n ∧ DELIM_STR ∉ decimal n ∧ decimal n ≠ MAGIC := by
  refine ⟨fun member => ?_, fun member => ?_, fun same => ?_⟩
  · exact absurd (decimal_digit member).1 (by decide)
  · exact absurd (decimal_digit member).1 (by decide)
  · have first : (86 : UInt8) ∈ decimal n := same ▸ (by decide : (86 : UInt8) ∈ MAGIC)
    exact absurd (decimal_digit first).2 (by decide)

theorem strtok_count (v : VoteInfo) (more : Bytes) :
    strtok DELIM_STR ⟨[], encodeCount v ++ NUL :: more⟩ =
      some (some (decimal v.count.toNat), ⟨[32] ++ decimal v.count.toNat, NUL :: more⟩) := by
  obtain ⟨noNul, noSpace, -⟩ := decimal_clean v.count.toNat
  have word := strtokFrom_word DELIM_STR [] [32] more noNul noSpace
    (by simpa using decimal_ne_nil _)
  have space : (32 : UInt8) ≠ NUL := by decide
  simpa [strtok, encodeCount, strtokFrom, DELIM_STR, space] using word

theorem decode_startsWithCount {text : Bytes} (count : StartsWithCount text) (w : VoteInfo) :
    ∃ left, decode text w = some (false, w, left) := by
  obtain ⟨v, more, rfl⟩ := count
  have wrong : some (decimal v.count.toNat) ≠ some MAGIC := by simpa using (decimal_clean v.count.toNat).2.2
  refine ⟨[32] ++ decimal v.count.toNat ++ NUL :: more, ?_⟩
  unfold decode decodeFrom
  rw [Reader.bind_eq, strtok_count]
  dsimp only
  rw [if_pos wrong]
  rfl

theorem StartsWithCount.append {text : Bytes} (count : StartsWithCount text) (more : Bytes) :
    StartsWithCount (text ++ more) := by
  obtain ⟨v, behind, rfl⟩ := count
  exact ⟨v, behind ++ more, by simp⟩

theorem startsWithCount_take (v : VoteInfo) (behind : Bytes) :
    StartsWithCount ((encodeCount v ++ NUL :: behind).take ((encodeHead v).length + (encodeCount v).length)) := by
  have positive : 1 ≤ (encodeHead v).length := by
    simp only [encodeHead, List.length_append, List.length_singleton]
    omega
  obtain ⟨k, size⟩ := Nat.exists_eq_add_of_le positive
  refine ⟨v, behind.take k, ?_⟩
  rw [size, Nat.add_comm, List.take_length_add_append, Nat.add_comm, List.take_succ_cons]

/-- No response is recovered from what `Encode` writes. -/
theorem response_not_recovered {v : VoteInfo} (response : v.isResponse = true) (w : VoteInfo) (outBuf : WireBuf) :
    ¬ Recovers v w outBuf := by
  rintro ⟨size, out, left, encoded, decoded⟩
  obtain ⟨behind, written, -⟩ := encode_response response outBuf
  rw [written, Option.some.injEq, Prod.mk.injEq] at encoded
  obtain ⟨rfl, rfl⟩ := encoded
  obtain ⟨left', rejected⟩ := decode_startsWithCount ((startsWithCount_take v behind).append [NUL]) w
  rw [rejected] at decoded
  simp at decoded

theorem response_not_recovered_one : ¬ Recovers ⟨1, 4, false, true⟩ VoteInfo.zero zeros :=
  response_not_recovered rfl VoteInfo.zero zeros

theorem first_response_rejected : ¬ Recovers ⟨1, 4, false, true⟩ VoteInfo.zero zeros := by
  rintro ⟨size, out, left, encoded, decoded⟩
  have rejected : (encode ⟨1, 4, false, true⟩ zeros.1 MAX_WIRE_SIZE).map
      (fun e => (decode (e.2.take e.1 ++ [NUL]) VoteInfo.zero).map Prod.fst) = some (some false) := by
    decide +kernel
  rw [encoded, Option.map_some, decoded] at rejected
  simp at rejected

end SocketPrograms.Vote
