import SocketPrograms.Vote.Server

/-! What `Decode` can learn from the bytes of a message, and what it takes from the bytes
that earlier messages left behind it in the buffer. -/

namespace SocketPrograms.Vote
open Lib CString

def DecidedBody : List Bytes → Prop
  | [] => False
  | third :: rest => third ≠ RESPONSE_STR ∨ 2 ≤ rest.length

def Decided : List Bytes → Prop
  | [] => False
  | [first] => first ≠ MAGIC
  | first :: second :: rest =>
    first ≠ MAGIC ∨ second ≠ VOTE_STR ∧ second ≠ INQ_STR ∨ DecidedBody rest

/-- A message that `Decode` does not read beyond: it has a NUL, or the tokens that are
closed by a space inside it decide the result. -/
def SelfDelimited (text : Bytes) : Prop := NUL ∈ text ∨ Decided (closedTokens DELIM_STR text)

instance : DecidablePred DecidedBody
  | [] => inferInstanceAs (Decidable False)
  | _ :: _ => inferInstanceAs (Decidable (_ ∨ _))

instance : DecidablePred Decided
  | [] => inferInstanceAs (Decidable False)
  | [_] => inferInstanceAs (Decidable (_ ≠ _))
  | _ :: _ :: _ => inferInstanceAs (Decidable (_ ∨ _ ∧ _ ∨ _))

instance : DecidablePred SelfDelimited := fun _ => inferInstanceAs (Decidable (_ ∨ _))

def verdict (buf : Bytes) : Option (Bool × VoteInfo) := (decode buf VoteInfo.zero).map fun out => (out.1, out.2.1)

/-- The message alone decides what `Decode` gives, and with it which counters change. -/
def Isolated (text : Bytes) : Prop :=
  (∀ buf buf' : WireBuf, buf.1.take text.length = text → buf'.1.take text.length = text →
    verdict buf.1 = verdict buf'.1) ∧
  ∀ (counts : List UInt64) (rest : Bytes) (inBuf inBuf' outBuf : WireBuf),
    (serve counts (text ++ DELIM :: rest) inBuf.1 outBuf.1).1.counts =
      (serve counts (text ++ DELIM :: rest) inBuf'.1 outBuf.1).1.counts

theorem decodeNumbers_none_iff {s : Scan} (noNul : NUL ∉ s.rest) (v : VoteInfo) (tok : Bytes) :
    decodeNumbers v tok s = none ↔ v.isResponse = true ∧ closedTokens DELIM_STR s.rest = [] := by
  unfold decodeNumbers
  by_cases response : v.isResponse = true
  · simp only [response, if_true, true_and, Reader.bind_eq]
    rcases strtok_closed DELIM_STR noNul with ⟨tokens, starved⟩ | ⟨t, s', tokens, ends, -⟩
    · simp [starved, tokens]
    · simp [ends, tokens, Reader.pure_eq]
  · simp [response, Reader.pure_eq]

theorem decodeBody_none_iff {s : Scan} (noNul : NUL ∉ s.rest) (v : VoteInfo) :
    decodeBody v s = none ↔ ¬ DecidedBody (closedTokens DELIM_STR s.rest) := by
  unfold decodeBody
  rw [Reader.bind_eq]
  rcases strtok_closed DELIM_STR noNul with ⟨tokens, starved⟩ | ⟨third, s', tokens, ends, later⟩
  · simp [starved, tokens, DecidedBody]
  rw [tokens, ends]
  dsimp only
  split_ifs with response
  · rw [Reader.bind_eq]
    rcases strtok_closed DELIM_STR later with ⟨tokens', starved⟩ | ⟨fourth, s'', tokens', ends', last⟩
    · simp [starved, tokens', DecidedBody, response]
    · rw [tokens', ends', decodeNumbers_none_iff last]
      cases rest : closedTokens DELIM_STR s''.rest <;> simp [DecidedBody, response]
  · simp [decodeNumbers_none_iff later, DecidedBody, response]

theorem decodeFrom_none_iff {s : Scan} (noNul : NUL ∉ s.rest) (v : VoteInfo) :
    decodeFrom v s = none ↔ ¬ Decided (closedTokens DELIM_STR s.rest) := by
  unfold decodeFrom
  rw [Reader.bind_eq]
  rcases strtok_closed DELIM_STR noNul with ⟨tokens, starved⟩ | ⟨first, s', tokens, ends, later⟩
  · simp [starved, tokens, Decided]
  rw [tokens, ends]
  dsimp only
  split_ifs with other
  · have wrong : first ≠ MAGIC := fun same => other (congrArg some same)
    cases rest : closedTokens DELIM_STR s'.rest <;> simp [Decided, wrong, Reader.pure_eq]
  have magic : first = MAGIC := by simpa using other
  rw [Reader.bind_eq]
  rcases strtok_closed DELIM_STR later with ⟨tokens', starved⟩ | ⟨second, s'', tokens', ends', last⟩
  · simp [starved, tokens', Decided, magic]
  rw [tokens', ends']
  dsimp only
  split_ifs with vote inquiry
  · simp [decodeBody_none_iff last, Decided, magic, vote]
  · simp [decodeBody_none_iff last, Decided, magic, inquiry]
  · simp [Decided, magic, vote, inquiry, Reader.pure_eq]

/-- `Decode` stays inside a buffer exactly when the buffer itself ends its reading. -/
theorem decode_none_iff (buf : Bytes) (v : VoteInfo) : decode buf v = none ↔ ¬ SelfDelimited buf := by
  have same : decode buf v = none ↔ decodeFrom v ⟨[], buf⟩ = none := by
    unfold decode
    split
    next starved => simp [starved]
    next r w s ends => simp [ends]
  rw [same]
  by_cases nul : NUL ∈ buf
  · obtain ⟨a, s, ends, -⟩ := (decodeFrom_local v).halts [] nul
    simp [ends, SelfDelimited, nul]
  · rw [decodeFrom_none_iff (s := ⟨[], buf⟩) nul]
    simp [SelfDelimited, nul]

theorem verdict_none_iff (buf : Bytes) : verdict buf = none ↔ ¬ SelfDelimited buf := by
  rw [verdict, Option.map_eq_none_iff, decode_none_iff]

theorem verdict_append {text : Bytes} (own : SelfDelimited text) (more : Bytes) :
    verdict (text ++ more) = verdict text := by
  have reads : decode text VoteInfo.zero ≠ none := by rw [Ne, decode_none_iff]; exact not_not_intro own
  unfold verdict decode at *
  split at reads
  next starved => exact absurd rfl reads
  next r w s ends => simp [(decodeFrom_local VoteInfo.zero).grows more ends]

theorem not_selfDelimited_append {text more : Bytes} (undecided : ¬ SelfDelimited text) (noNul : NUL ∉ more)
    (noSpace : DELIM_STR ∉ more) : ¬ SelfDelimited (text ++ more) := by
  rw [← decode_none_iff _ VoteInfo.zero] at undecided ⊢
  unfold decode at undecided ⊢
  split at undecided
  next starved => rw [(decodeFrom_local VoteInfo.zero).starves more noNul noSpace starved]
  next r w s ends => cases undecided

theorem verdicts_agree_iff {text : Bytes} (short : text.length < MAX_WIRE_SIZE) :
    (∀ buf buf' : WireBuf, buf.1.take text.length = text → buf'.1.take text.length = text →
      verdict buf.1 = verdict buf'.1) ↔ SelfDelimited text := by
  constructor
  · intro agree
    by_contra undecided
    -- zeros behind the message end its last token, letters never do
    let filled (b : UInt8) : WireBuf :=
      ⟨text ++ List.replicate (MAX_WIRE_SIZE - text.length) b, by simp; omega⟩
    have same := agree (filled NUL) (filled 120) (by simp [filled]) (by simp [filled])
    have read : verdict (filled NUL).1 ≠ none := by
      rw [Ne, verdict_none_iff, not_not]
      exact Or.inl (List.mem_append_right _ (List.mem_replicate.mpr ⟨by omega, rfl⟩))
    have starved : verdict (filled 120).1 = none := by
      rw [verdict_none_iff]
      refine not_selfDelimited_append undecided ?_ ?_
      all_goals
        rw [List.mem_replicate, not_and]
        exact fun _ => by decide
    exact read (same.trans starved)
  · intro own buf buf' front front'
    rw [← List.take_append_drop text.length buf.1, ← List.take_append_drop text.length buf'.1, front, front',
      verdict_append own, verdict_append own]

theorem respond_counts (counts : List UInt64) (stream stream' inBuf inBuf' : Bytes) (msg : VoteInfo)
    (outBuf : Bytes) :
    (respond counts stream inBuf msg outBuf).1.counts = (respond counts stream' inBuf' msg outBuf).1.counts := by
  simp only [respond_eq]
  split_ifs
  · rfl
  obtain _ | ⟨counts', reply⟩ := tally counts msg
  · rfl
  dsimp only
  obtain _ | ⟨mSize, out⟩ := encode reply outBuf MAX_WIRE_SIZE
  · rfl
  dsimp only
  split_ifs <;> rfl

/-- The counters depend on the buffer through the verdict only. -/
theorem serve_counts {counts : List UInt64} {text rest inBuf inBuf' : Bytes} (outBuf : Bytes)
    (clean : DELIM ∉ text) (short : text.length < MAX_WIRE_SIZE) (room : inBuf.length = MAX_WIRE_SIZE)
    (room' : inBuf'.length = MAX_WIRE_SIZE)
    (same : verdict (received inBuf text) = verdict (received inBuf' text)) :
    (serve counts (text ++ DELIM :: rest) inBuf outBuf).1.counts =
      (serve counts (text ++ DELIM :: rest) inBuf' outBuf).1.counts := by
  simp only [serve_eq]
  rw [getNextMsg_line (Nat.le_of_eq room.symm) rest clean short,
    getNextMsg_line (Nat.le_of_eq room'.symm) rest clean short]
  dsimp only
  split_ifs
  · unfold verdict at same
    cases done : decode (received inBuf text) VoteInfo.zero with
    | none =>
      rw [done, Option.map_none, eq_comm, Option.map_eq_none_iff] at same
      rw [same]
    | some out =>
      rw [done, Option.map_some, eq_comm, Option.map_eq_some_iff] at same
      obtain ⟨⟨result', v', left'⟩, done', equal⟩ := same
      obtain ⟨result, v, left⟩ := out
      obtain ⟨rfl, rfl⟩ := by simpa using equal
      rw [done']
      cases result'
      · rfl
      · exact respond_counts ..
  · rfl

/-- A message that `GetNextMsg` returns is isolated from what the buffer held before exactly
when it delimits itself. -/
theorem message_isolated_iff {stream rest buf : Bytes} {inBuf : WireBuf} {mSize : Int}
    (got : getNextMsg stream inBuf.1 MAX_WIRE_SIZE = .returned mSize buf rest) (message : 0 < mSize) :
    Isolated (buf.take mSize.toNat) ↔ SelfDelimited (buf.take mSize.toNat) := by
  have frame := getNextMsg_frame (Nat.le_of_eq inBuf.2.symm) (by decide) stream
  rw [got] at frame
  obtain ⟨text, -, clean, short, size, rfl⟩ := frame.positive message
  have whole : (received inBuf.1 text).take mSize.toNat = text := by rw [size]; exact take_received _ _
  rw [whole, ← verdicts_agree_iff short]
  refine ⟨fun isolated => isolated.1, fun agree => ⟨agree, ?_⟩⟩
  intro counts rest inBuf inBuf' outBuf
  have wire (b : WireBuf) : (received b.1 text).length = MAX_WIRE_SIZE :=
    (length_received (by rw [b.2]; omega)).trans b.2
  exact serve_counts outBuf.1 clean short inBuf.2 inBuf'.2
    (agree ⟨_, wire inBuf⟩ ⟨_, wire inBuf'⟩ (take_received _ _) (take_received _ _))

def voteFour : Bytes := ascii ['V', 'o', 't', 'i', 'n', 'g', ' ', 'v', ' ', ' ', '4']

/-- A vote for candidate 4 counts for candidate 423 when a vote for candidate 123 came before. -/
theorem vote_read_with_residue :
    ∃ left : WireBuf, decode (received zeros.1 (voteFour.dropLast ++ ascii ['1', '2', '3'])) VoteInfo.zero =
        some (true, ⟨0, 123, false, false⟩, left.1) ∧
      getNextMsg (voteFour ++ [DELIM]) left.1 MAX_WIRE_SIZE = .returned 11 (received left.1 voteFour) [] ∧
      verdict (received left.1 voteFour) = some (true, ⟨0, 423, false, false⟩) ∧
      verdict (received zeros.1 voteFour) = some (true, ⟨0, 4, false, false⟩) ∧
      ¬ Isolated ((received left.1 voteFour).take (11 : Int).toNat) := by
  let left : WireBuf :=
    ⟨received zeros.1 (MAGIC ++ [NUL] ++ VOTE_STR ++ [NUL, 32] ++ ascii ['1', '2', '3']), by decide +kernel⟩
  have misread : verdict (received left.1 voteFour) = some (true, ⟨0, 423, false, false⟩) := by decide +kernel
  have read : verdict (received zeros.1 voteFour) = some (true, ⟨0, 4, false, false⟩) := by decide +kernel
  refine ⟨left, by decide +kernel, by decide +kernel, misread, read, fun isolated => ?_⟩
  have same := isolated.1 ⟨received left.1 voteFour, by decide +kernel⟩
    ⟨received zeros.1 voteFour, by decide +kernel⟩ (by decide +kernel) (by decide +kernel)
  rw [misread, read] at same
  exact absurd same (by decide)

/-- A space behind the candidate closes its token. -/
theorem closed_vote_isolated : Isolated ((received zeros.1 (voteFour ++ [32])).take (12 : Int).toNat) :=
  (message_isolated_iff (show getNextMsg (voteFour ++ [32] ++ [DELIM]) zeros.1 MAX_WIRE_SIZE =
    .returned 12 (received zeros.1 (voteFour ++ [32])) [] by decide +kernel) (by decide)).mpr
    (Or.inr (by decide +kernel))

end SocketPrograms.Vote
