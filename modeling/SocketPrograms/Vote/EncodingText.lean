import SocketPrograms.Lib.Format

/-! `VoteEncodingText.c`, which the vote server and the vote client share, and the types of
`VoteProtocol.h`. -/

namespace SocketPrograms.Vote
open Lib CString Format

def MAX_CANDIDATE : Int := 1000
def MAX_WIRE_SIZE : Nat := 500

structure VoteInfo where
  count : UInt64
  candidate : Int32
  isInquiry : Bool
  isResponse : Bool
deriving DecidableEq, Repr

/-- `memset(&v, 0, sizeof(v))` -/
def VoteInfo.zero : VoteInfo := ⟨0, 0, false, false⟩

/-- The contents of a message buffer, which neither program initialises. -/
abbrev WireBuf := {buf : Bytes // buf.length = MAX_WIRE_SIZE}

def zeros : WireBuf := ⟨List.replicate MAX_WIRE_SIZE 0, List.length_replicate⟩

def MAGIC : Bytes := ascii ['V', 'o', 't', 'i', 'n', 'g']
def VOTE_STR : Bytes := ascii ['v']
def INQ_STR : Bytes := ascii ['i']
def RESPONSE_STR : Bytes := ascii ['R']
def DELIM_STR : UInt8 := 32

def decodeNumbers (v : VoteInfo) (tok : Bytes) : Reader (Bool × VoteInfo) :=
  let v := { v with candidate := atoi tok }
  if v.isResponse then do
    match ← strtok DELIM_STR with
    | none => return (false, v)
    | some tok => return (true, { v with count := UInt64.ofInt (strtoll tok) })
  else return (true, { v with count := 0 })

def decodeBody (v : VoteInfo) : Reader (Bool × VoteInfo) := do
  match ← strtok DELIM_STR with
  | none => return (false, v)
  | some tok =>
    if tok = RESPONSE_STR then do
      let v := { v with isResponse := true }
      match ← strtok DELIM_STR with
      | none => return (false, v)
      | some tok => decodeNumbers v tok
    else decodeNumbers { v with isResponse := false } tok

def decodeFrom (v : VoteInfo) : Reader (Bool × VoteInfo) := do
  let tok ← strtok DELIM_STR
  if tok ≠ some MAGIC then return (false, v)
  else do
    match ← strtok DELIM_STR with
    | none => return (false, v)
    | some tok =>
      if tok = VOTE_STR then decodeBody { v with isInquiry := false }
      else if tok = INQ_STR then decodeBody { v with isInquiry := true }
      else return (false, v)

/-- `Decode`, which does not look at the size of the message: the result, the record it
fills and the buffer as it leaves it. `none` when it reads behind the end of the buffer. -/
def decode (inBuf : Bytes) (v : VoteInfo) : Option (Bool × VoteInfo × Bytes) :=
  match decodeFrom v ⟨[], inBuf⟩ with
  | none => none
  | some ((result, v), s) => some (result, v, s.buffer)

/-- `"%s %c %s %d"` -/
def encodeHead (v : VoteInfo) : Bytes :=
  MAGIC ++ [32] ++ (if v.isInquiry then ascii ['i'] else ascii ['v']) ++ [32] ++
    (if v.isResponse then ascii ['R'] else []) ++ [32] ++ signedDecimal v.candidate.toInt

/-- `" %llu"` -/
def encodeCount (v : VoteInfo) : Bytes := [32] ++ decimal v.count.toNat

/-- `Encode`: the size it returns and the buffer it leaves. The second `snprintf` is given
the start of the buffer again, as the source has it. The room left is a signed `long` that
`snprintf` takes for a `size_t`. -/
def encode (v : VoteInfo) (outBuf : Bytes) (bufSize : Nat) : Option (Nat × Bytes) := do
  let (rv, outBuf) ← snprintf outBuf 0 bufSize (encodeHead v)
  let size : Int := bufSize - rv
  if v.isResponse then
    let (rv', outBuf) ← snprintf outBuf 0 (size % 2 ^ 64).toNat (encodeCount v)
    return (rv + rv', outBuf)
  else return (rv, outBuf)

theorem decodeNumbers_local (v : VoteInfo) (tok : Bytes) : Local DELIM_STR (decodeNumbers v tok) := by
  unfold decodeNumbers
  apply Local.ite
  · apply Local.bind (strtok_local _)
    intro next
    cases next <;> exact Local.pure _
  · exact Local.pure _

theorem decodeBody_local (v : VoteInfo) : Local DELIM_STR (decodeBody v) := by
  apply Local.bind (strtok_local _)
  intro third
  cases third with
  | none => exact Local.pure _
  | some tok =>
    apply Local.ite
    · apply Local.bind (strtok_local _)
      intro fourth
      cases fourth with
      | none => exact Local.pure _
      | some tok => exact decodeNumbers_local _ _
    · exact decodeNumbers_local _ _

theorem decodeFrom_local (v : VoteInfo) : Local DELIM_STR (decodeFrom v) := by
  apply Local.bind (strtok_local _)
  intro first
  apply Local.ite (Local.pure _)
  apply Local.bind (strtok_local _)
  intro second
  cases second with
  | none => exact Local.pure _
  | some tok =>
    apply Local.ite (decodeBody_local _)
    exact Local.ite (decodeBody_local _) (Local.pure _)

theorem length_decode {inBuf left : Bytes} {v v' : VoteInfo} {result : Bool}
    (done : decode inBuf v = some (result, v', left)) : left.length = inBuf.length := by
  unfold decode at done
  split at done
  next starved => cases done
  next r w s ends =>
    obtain ⟨rfl, rfl, rfl⟩ := by simpa using done
    simpa [Scan.buffer] using (decodeFrom_local v).keeps ends

theorem length_encodeHead (v : VoteInfo) : (encodeHead v).length ≤ 22 := by
  have low := v.candidate.le_toInt
  have high := v.candidate.toInt_lt
  have digits := length_signedDecimal_le (i := v.candidate.toInt) (by omega)
  have magic : MAGIC.length = 6 := rfl
  simp only [encodeHead, List.length_append, List.length_singleton, magic]
  split <;> split <;> simp only [ascii, List.length_map, List.length_singleton, List.length_nil] <;> omega

theorem length_encodeCount (v : VoteInfo) : (encodeCount v).length ≤ 21 := by
  have digits := length_decimal_le (n := v.count.toNat) (k := 20) (by decide)
    (Nat.lt_of_lt_of_le v.count.toNat_lt (by decide))
  simp only [encodeCount, List.length_append, List.length_singleton]
  omega

theorem encodeHead_stored (v : VoteInfo) (outBuf : WireBuf) :
    ∃ behind, snprintf outBuf.1 0 MAX_WIRE_SIZE (encodeHead v) =
        some ((encodeHead v).length, encodeHead v ++ NUL :: behind) ∧
      (encodeHead v ++ NUL :: behind).length = MAX_WIRE_SIZE := by
  have head := length_encodeHead v
  have wire : MAX_WIRE_SIZE = 500 := rfl
  have size : outBuf.1.length = MAX_WIRE_SIZE := outBuf.2
  have stored := snprintf_fits outBuf.1 (encodeHead v) 0 MAX_WIRE_SIZE (by omega) (by omega)
  rw [List.take_zero, List.nil_append, Nat.zero_add, List.append_assoc] at stored
  have whole : (encodeHead v ++ NUL :: outBuf.1.drop ((encodeHead v).length + 1)).length = MAX_WIRE_SIZE := by
    rw [List.length_append, List.length_cons, List.length_drop]
    omega
  exact ⟨_, stored, whole⟩

theorem room_left (v : VoteInfo) :
    ((MAX_WIRE_SIZE - (encodeHead v).length : Int) % 2 ^ 64).toNat = MAX_WIRE_SIZE - (encodeHead v).length := by
  have head := length_encodeHead v
  have wire : MAX_WIRE_SIZE = 500 := rfl
  omega

/-- What `Encode` leaves of a response: the text of the count over the start of the text
before, and a length that counts both. -/
theorem encode_response {v : VoteInfo} (response : v.isResponse = true) (outBuf : WireBuf) :
    ∃ behind, encode v outBuf.1 MAX_WIRE_SIZE =
        some ((encodeHead v).length + (encodeCount v).length, encodeCount v ++ NUL :: behind) ∧
      (encodeCount v ++ NUL :: behind).length = MAX_WIRE_SIZE := by
  obtain ⟨behind, first, whole⟩ := encodeHead_stored v outBuf
  have head := length_encodeHead v
  have count := length_encodeCount v
  have wire : MAX_WIRE_SIZE = 500 := rfl
  have second := snprintf_fits (encodeHead v ++ NUL :: behind) (encodeCount v) 0
    (MAX_WIRE_SIZE - (encodeHead v).length) (by omega) (by omega)
  have size : (encodeCount v ++ NUL :: (encodeHead v ++ NUL :: behind).drop ((encodeCount v).length + 1)).length =
      MAX_WIRE_SIZE := by
    rw [List.length_append, List.length_cons, List.length_drop]
    omega
  refine ⟨_, ?_, size⟩
  simp only [encode, first, response, if_true, Option.bind_eq_bind, Option.bind_some]
  rw [room_left, second]
  simp

/-- The answer to the first vote for candidate 4, in a buffer of zeros. -/
example : (encode ⟨1, 4, false, true⟩ zeros.1 MAX_WIRE_SIZE).map (fun out => out.2.take out.1) =
    some ([32, 49, 0] ++ ascii ['i', 'n', 'g', ' ', 'v', ' ', 'R', ' ', '4'] ++ [0, 0]) := by decide +kernel

end SocketPrograms.Vote
