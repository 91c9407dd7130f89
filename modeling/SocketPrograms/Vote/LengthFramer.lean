import SocketPrograms.Vote.Framer

/-! `LengthFramer.c`, the other implementation of `Framer.h`: a length of two bytes in network
order in front of each message. -/

namespace SocketPrograms.Vote.LengthFramer
open Lib CString

def UINT16_MAX : Nat := 65535
def BUF_SIZE : Nat := 100

/-- How `GetNextMsg` ends. `waste` has room for `BUF_SIZE` bytes only. -/
inductive Outcome where
  | returned (size : Int) (buf stream : Bytes)
  | storedBehindWaste
deriving DecidableEq, Repr

def header (size : Nat) : Bytes := [UInt8.ofNat (size / 256), UInt8.ofNat size]

def ntohs : Bytes → Nat
  | [high, low] => 256 * high.toNat + low.toNat
  | _ => 0

def putMsg (buf : Bytes) (msgSize : Nat) : Int × Bytes :=
  if UINT16_MAX < msgSize then (-1, [])
  else (msgSize, header msgSize ++ buf.take msgSize)

/-- A `fread` that finds less than it asks for takes what there is. The size of what was read
into `waste` is not looked at. -/
def getNextMsg (stream buf : Bytes) (bufSize : Nat) : Outcome :=
  if stream.length < 2 then .returned (-1) buf []
  else
    let mSize := ntohs (stream.take 2)
    let stream := stream.drop 2
    let extra := if bufSize < mSize then mSize - bufSize else 0
    let mSize := if bufSize < mSize then bufSize else mSize
    if stream.length < mSize then .returned (-1) (received buf stream) []
    else
      let buf := received buf (stream.take mSize)
      let stream := stream.drop mSize
      if 0 < extra then
        if BUF_SIZE < (stream.take extra).length then .storedBehindWaste
        else .returned (-(mSize + extra)) buf (stream.drop extra)
      else .returned mSize buf stream

def framer : Framer where
  putMsg := putMsg
  getNextMsg stream buf bufSize :=
    match getNextMsg stream buf bufSize with
    | .returned size buf stream => some (size, buf, stream)
    | .storedBehindWaste => none

theorem length_header (size : Nat) : (header size).length = 2 := rfl

theorem ntohs_header {size : Nat} (small : size ≤ UINT16_MAX) : ntohs (header size) = size := by
  simp only [UINT16_MAX] at small
  simp only [ntohs, header, UInt8.toNat_ofNat']
  omega

def frame (payload : Bytes) : Bytes := header payload.length ++ payload

def Broken (bufSize : Nat) (tail : Bytes) : Prop :=
  ∃ payload size, payload.length ≤ UINT16_MAX ∧ payload.length ≤ bufSize ∧ size < (frame payload).length ∧
    tail = (frame payload).take size

theorem getNextMsg_frame {bufSize : Nat} {payload : Bytes} (buf : Bytes) (small : payload.length ≤ UINT16_MAX)
    (fits : payload.length ≤ bufSize) (rest : Bytes) :
    getNextMsg (frame payload ++ rest) buf bufSize = .returned payload.length (received buf payload) rest := by
  have front : (frame payload ++ rest).take 2 = header payload.length := by simp [frame, header]
  have behind : (frame payload ++ rest).drop 2 = payload ++ rest := by simp [frame, header]
  have enough : ¬ (frame payload ++ rest).length < 2 := by
    simp only [frame, List.length_append, length_header]
    omega
  simp only [getNextMsg, if_neg enough, front, behind, ntohs_header small, if_neg (Nat.not_lt.mpr fits)]
  simp

theorem getNextMsg_broken {bufSize : Nat} {tail buf : Bytes} (broken : Broken bufSize tail)
    (room : bufSize ≤ buf.length) :
    ∃ buf', getNextMsg tail buf bufSize = .returned (-1) buf' [] ∧ buf'.length = buf.length := by
  obtain ⟨payload, size, small, fits, missing, rfl⟩ := broken
  rw [frame, List.length_append, length_header] at missing
  have count : ((frame payload).take size).length = size := by
    rw [List.length_take, frame, List.length_append, length_header]
    omega
  by_cases short : size < 2
  · exact ⟨buf, by rw [getNextMsg, if_pos (by omega)], rfl⟩
  obtain ⟨k, rfl⟩ := Nat.exists_eq_add_of_le (Nat.not_lt.mp short)
  have front : ((frame payload).take (2 + k)).take 2 = header payload.length := by
    rw [List.take_take]
    simp [frame, header]
  have behind : ((frame payload).take (2 + k)).drop 2 = payload.take k := by
    rw [List.drop_take]
    simp [frame, header]
  have lacking : (payload.take k).length < payload.length := by
    rw [List.length_take]
    omega
  refine ⟨received buf (payload.take k), ?_, length_received (by omega)⟩
  simp only [getNextMsg, count, if_neg short, front, behind, ntohs_header small, if_neg (Nat.not_lt.mpr fits),
    if_pos lacking]

theorem framer_put (payload : Bytes) : framer.Refuses (UINT16_MAX < ·.length) frame payload := by
  by_cases long : UINT16_MAX < payload.length
  · have refused : framer.put payload = (-1, []) := by
      simp [Framer.put, framer, putMsg, long, asInt]
    exact ⟨iff_of_true refused long, fun small => absurd long small⟩
  · have int : asInt payload.length = payload.length := by
      simp only [UINT16_MAX] at long
      exact asInt_small (by omega) (by simp only [INT_MAX]; omega)
    have put : framer.put payload = ((payload.length : Int), frame payload) := by
      simp [Framer.put, framer, putMsg, long, int, frame]
    have written : framer.put payload ≠ (-1, []) := by simp [put, frame, header]
    exact ⟨iff_of_false written long, fun _ => put⟩

theorem framer_frame {payload : Bytes} (small : payload.length ≤ UINT16_MAX) : framer.frame payload = frame payload :=
  (framer_put payload).frame (Nat.not_lt.mpr small)

theorem framer_law (bufSize : Nat) :
    framer.Law bufSize (fun payload => payload.length ≤ UINT16_MAX ∧ payload.length ≤ bufSize)
      (Broken bufSize) where
  takes {payload} rest {buf} fits room := by
    have got := getNextMsg_frame buf fits.1 fits.2 rest
    have shorter : payload.length ≤ buf.length := by omega
    rw [framer_frame fits.1]
    exact ⟨received buf payload, by simp [framer, got], take_received buf payload, length_received shorter⟩
  small {payload} fits := by
    have small := fits.1
    simp only [UINT16_MAX, INT_MAX] at small ⊢
    omega
  ends {tail buf} broken room := by
    obtain ⟨buf', got, size⟩ := getNextMsg_broken broken room
    exact ⟨buf', by simp [framer, got], size⟩
  empty := ⟨[], 0, by simp, by simp, by simp [frame, header], rfl⟩

theorem broken_of_cut {bufSize : Nat} {payload : Bytes} (small : payload.length ≤ UINT16_MAX)
    (fits : payload.length ≤ bufSize) {size : Nat} (short : size < (framer.frame payload).length) :
    Broken bufSize ((framer.frame payload).take size) := by
  rw [framer_frame small] at short ⊢
  exact ⟨payload, size, small, fits, short, rfl⟩

/-- `PutMsg` refuses exactly the messages that are too long for the header. `GetNextMsg` gives
back the others, and of a stream that is cut exactly those that end by the cut. -/
theorem length_roundtrip (bufSize : Nat) (payloads : List Bytes) :
    (∀ payload ∈ payloads,
      (framer.put payload = (-1, []) ↔ UINT16_MAX < payload.length) ∧
      (payload.length ≤ UINT16_MAX → (framer.put payload).1 = payload.length)) ∧
    ((∀ payload ∈ framer.accepted payloads, payload.length ≤ bufSize) →
      ∀ buf : Bytes, bufSize ≤ buf.length → ∀ k,
        ((framer.receiver bufSize).run (List.replicate ((framer.accepted payloads).length + k) ())
          (framer.sent payloads, buf)).2 =
            (framer.accepted payloads).map Framer.message ++ List.replicate k Framer.ended ∧
        ∀ cut, ∃ whole later, framer.accepted payloads = whole ++ later ∧
          EndsBy framer.frame cut whole later ∧
          ((framer.receiver bufSize).run (List.replicate (whole.length + k) ())
            ((framer.sent payloads).take cut, buf)).2 =
              whole.map Framer.message ++ List.replicate k Framer.ended) := by
  have all : ∀ payload ∈ payloads, framer.Refuses (UINT16_MAX < ·.length) frame payload :=
    fun payload _ => framer_put payload
  constructor
  · intro payload member
    have put := (framer_put payload).put
    exact ⟨(framer_put payload).refused, fun small => congrArg Prod.fst (put (Nat.not_lt.mpr small))⟩
  intro fit buf room k
  have fits : ∀ payload ∈ framer.accepted payloads, payload.length ≤ UINT16_MAX ∧ payload.length ≤ bufSize :=
    fun payload member => ⟨Nat.not_lt.mp (Framer.not_bad_of_accepted all member), fit payload member⟩
  have law := framer_law bufSize
  constructor
  · have back := law.received (framer.accepted payloads) [] fits law.empty room k
    rwa [List.append_nil, Framer.sent_accepted all] at back
  · intro cut
    obtain ⟨whole, later, tail, split, ends, left, part⟩ := cut_frames framer.frame (framer.accepted payloads) cut
    rw [split] at fits
    have broken : Broken bufSize tail := by
      rcases part with rfl | ⟨next, member, size, short, rfl⟩
      · exact law.empty
      · obtain ⟨narrow, inside⟩ := fits next (List.mem_append_right _ member)
        exact broken_of_cut narrow inside short
    have back := law.received whole tail (fun p member => fits p (List.mem_append_left _ member)) broken room k
    rw [← Framer.sent_accepted all]
    exact ⟨whole, later, split, ends, left ▸ back⟩

/-- Of two frames, the second is cut inside its payload. -/
theorem length_roundtrip_cut :
    ∃ whole later, framer.accepted [[7], [0, 10]] = whole ++ later ∧ EndsBy framer.frame 6 whole later ∧
      ((framer.receiver 2).run (List.replicate (whole.length + 1) ())
        ((framer.sent [[7], [0, 10]]).take 6, [0, 0])).2 =
          whole.map Framer.message ++ List.replicate 1 Framer.ended :=
  ((length_roundtrip 2 [[7], [0, 10]]).2 (by decide) [0, 0] (by decide) 1).2 6

/-! ### Frames of any length -/

/-- A whole frame in front of the stream is used up to its last byte, and `GetNextMsg` stores
no more of it than the caller's buffer holds. -/
def TakesFrame (bufSize : Nat) (payload : Bytes) : Prop :=
  ∀ buf rest : Bytes, bufSize ≤ buf.length →
    getNextMsg (frame payload ++ rest) buf bufSize =
      .returned (if payload.length ≤ bufSize then payload.length else -payload.length)
        (received buf (payload.take bufSize)) rest

theorem getNextMsg_long {bufSize : Nat} {payload : Bytes} (buf : Bytes) (small : payload.length ≤ UINT16_MAX)
    (long : bufSize < payload.length) (rest : Bytes) :
    getNextMsg (frame payload ++ rest) buf bufSize =
      if BUF_SIZE < payload.length - bufSize then .storedBehindWaste
      else .returned (-payload.length) (received buf (payload.take bufSize)) rest := by
  have front : (frame payload ++ rest).take 2 = header payload.length := by simp [frame, header]
  have behind : (frame payload ++ rest).drop 2 = payload ++ rest := by simp [frame, header]
  have enough : ¬ (frame payload ++ rest).length < 2 := by
    simp only [frame, List.length_append, length_header]
    omega
  have present : ¬ (payload ++ rest).length < bufSize := by
    rw [List.length_append]
    omega
  have kept : (payload ++ rest).take bufSize = payload.take bufSize := List.take_append_of_le_length (by omega)
  have left : (payload ++ rest).drop bufSize = payload.drop bufSize ++ rest := List.drop_append_of_le_length (by omega)
  have surplus : (payload.drop bufSize).length = payload.length - bufSize := List.length_drop
  have wasted : ((payload.drop bufSize ++ rest).take (payload.length - bufSize)).length = payload.length - bufSize := by
    rw [List.take_left' surplus, surplus]
  have total : -((bufSize : Int) + ((payload.length - bufSize : Nat) : Int)) = -(payload.length : Int) := by omega
  simp only [getNextMsg, if_neg enough, front, behind, ntohs_header small, if_pos long, if_neg present, kept, left,
    if_pos (Nat.sub_pos_of_lt long), wasted, total, List.drop_left' surplus]

/-- A frame is taken off safely unless the part of it that does not fit is longer than `waste`. -/
theorem takesFrame_iff {bufSize : Nat} {payload : Bytes} (small : payload.length ≤ UINT16_MAX) :
    TakesFrame bufSize payload ↔ payload.length ≤ bufSize + BUF_SIZE := by
  by_cases fits : payload.length ≤ bufSize
  · apply iff_of_true
    · intro buf rest room
      rw [getNextMsg_frame buf small fits, if_pos fits, List.take_of_length_le fits]
    · exact Nat.le_add_right_of_le fits
  have long : bufSize < payload.length := Nat.not_le.mp fits
  constructor
  · intro takes
    by_contra more
    have stored := takes (List.replicate bufSize 0) [] (Nat.le_of_eq List.length_replicate.symm)
    rw [getNextMsg_long _ small long, if_pos (by omega)] at stored
    cases stored
  · intro bound buf rest room
    rw [getNextMsg_long buf small long, if_neg (by omega), if_neg fits]

theorem takesFrame_hundred :
    TakesFrame 1 [7] ∧ TakesFrame 1 (List.replicate 101 7) ∧ ¬ TakesFrame 1 (List.replicate 102 7) :=
  ⟨(takesFrame_iff (by decide)).mpr (by decide), (takesFrame_iff (by decide)).mpr (by decide),
    fun takes => absurd ((takesFrame_iff (by decide)).mp takes) (by decide)⟩

/-- 102 bytes for a buffer of one byte. -/
theorem waste_overrun : ¬ TakesFrame 1 (List.replicate 102 7) := by
  intro takes
  have overrun : getNextMsg (frame (List.replicate 102 7) ++ []) [0] 1 = .storedBehindWaste := by decide +kernel
  have stored := takes [0] [] (by decide)
  rw [overrun] at stored
  cases stored

end SocketPrograms.Vote.LengthFramer
