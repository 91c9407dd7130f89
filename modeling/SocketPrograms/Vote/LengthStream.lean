import SocketPrograms.Vote.LengthFramer

/-! What a caller of `LengthFramer`'s `GetNextMsg` gets of any stream at all: frames that fit, frames
that are too long, and an end in the middle of a frame. -/

namespace SocketPrograms.Vote.LengthFramer
open Lib CString

inductive Received where
  | message (text : Bytes)
  /-- a negative count: the length of the frame, and what the buffer holds of it -/
  | long (size : Nat) (text : Bytes)
  | ended
  /-- bytes were stored behind `waste` -/
  | overrun
deriving DecidableEq, Repr

def Received.of (bufSize : Nat) (size : Int) (buf : Bytes) : Received :=
  if 0 ≤ size then .message (buf.take size.toNat)
  else if size = -1 then .ended
  else .long size.natAbs (buf.take bufSize)

def call (bufSize : Nat) : Option (Bytes × Bytes) → Option (Bytes × Bytes) × List Received
  | none => (none, [.overrun])
  | some (stream, buf) =>
    match getNextMsg stream buf bufSize with
    | .storedBehindWaste => (none, [.overrun])
    | .returned size buf stream => (some (stream, buf), [.of bufSize size buf])

def caller (bufSize : Nat) : Machine Unit (Option (Bytes × Bytes)) Received := ⟨fun _ => call bufSize⟩

/-- What is behind the last complete frame: less than a header, or a header and less than it says. -/
inductive Tail : Bytes → Prop where
  | short {tail : Bytes} (few : tail.length < 2) : Tail tail
  | cut {size : Nat} {text : Bytes} (small : size ≤ UINT16_MAX) (missing : text.length < size) :
      Tail (header size ++ text)

def frameResult (bufSize : Nat) (payload : Bytes) : Received :=
  if payload.length ≤ bufSize then .message payload
  else if payload.length ≤ bufSize + BUF_SIZE then .long payload.length (payload.take bufSize)
  else .overrun

/-- The result at the tail: a frame that is cut behind the end of the buffer is not told from one
that is only too long. -/
def tailResult (bufSize : Nat) (tail : Bytes) : Received :=
  if tail.length < 2 then .ended
  else if (tail.drop 2).length < min (ntohs (tail.take 2)) bufSize then .ended
  else if (tail.drop 2).length ≤ bufSize + BUF_SIZE then .long (ntohs (tail.take 2)) ((tail.drop 2).take bufSize)
  else .overrun

/-- Nothing can be said of what follows an overrun. -/
def untilOverrun : List Received → List Received
  | [] => []
  | .overrun :: rest => .overrun :: List.replicate rest.length .overrun
  | result :: rest => result :: untilOverrun rest

/-! ### Any stream is a row of frames and a tail -/

theorem header_ntohs (high low : UInt8) :
    header (ntohs [high, low]) = [high, low] ∧ ntohs [high, low] ≤ UINT16_MAX := by
  have h := high.toNat_lt
  have l := low.toNat_lt
  have first : (256 * high.toNat + low.toNat) / 256 = high.toNat := by omega
  have second : UInt8.ofNat (256 * high.toNat + low.toNat) = low := by
    rw [← UInt8.toNat_inj, UInt8.toNat_ofNat']
    omega
  constructor
  · rw [header, ntohs, first, second, UInt8.ofNat_toNat]
  · simp only [ntohs, UINT16_MAX]
    omega

/-- The induction is on the length, each frame having two bytes at least. -/
theorem exists_frames (n : Nat) (stream : Bytes) (bound : stream.length ≤ n) :
    ∃ (payloads : List Bytes) (tail : Bytes), stream = payloads.flatMap frame ++ tail ∧
      (∀ p ∈ payloads, p.length ≤ UINT16_MAX) ∧ Tail tail := by
  induction n generalizing stream with
  | zero => exact ⟨[], stream, rfl, by simp, .short (by omega)⟩
  | succ n ih =>
    cases stream with
    | nil => exact ⟨[], [], rfl, by simp, .short (by decide)⟩
    | cons high rest =>
      cases rest with
      | nil => exact ⟨[], [high], rfl, by simp, .short (by simp)⟩
      | cons low rest =>
        obtain ⟨same, small⟩ := header_ntohs high low
        by_cases missing : rest.length < ntohs [high, low]
        · have cut := Tail.cut small missing
          rw [same] at cut
          exact ⟨[], high :: low :: rest, rfl, by simp, cut⟩
        · have whole : (rest.take (ntohs [high, low])).length = ntohs [high, low] := by
            rw [List.length_take]
            omega
          obtain ⟨payloads, tail, split, all, ends⟩ := ih (rest.drop (ntohs [high, low])) (by
            simp only [List.length_cons] at bound
            rw [List.length_drop]
            omega)
          refine ⟨rest.take (ntohs [high, low]) :: payloads, tail, ?_, ?_, ends⟩
          · rw [List.flatMap_cons, frame, whole, same, List.append_assoc, List.append_assoc, ← split,
              List.take_append_drop]
            rfl
          · exact List.forall_mem_cons.mpr ⟨by rw [whole]; exact small, all⟩

/-! ### Calls -/

def Onward (bufSize : Nat) (rest : Bytes) (result : Received) (s : Option (Bytes × Bytes)) : Prop :=
  if result = .overrun then s = none else ∃ buf, s = some (rest, buf) ∧ bufSize ≤ buf.length

theorem Onward.overrun {bufSize : Nat} (rest : Bytes) : Onward bufSize rest .overrun none := by
  rw [Onward, if_pos rfl]

theorem Onward.goes {bufSize : Nat} {rest buf : Bytes} {result : Received} (fine : result ≠ .overrun)
    (room : bufSize ≤ buf.length) : Onward bufSize rest result (some (rest, buf)) := by
  rw [Onward, if_neg fine]
  exact ⟨buf, rfl, room⟩

theorem of_message {bufSize : Nat} (buf text : Bytes) :
    Received.of bufSize text.length (received buf text) = .message text := by
  have sign : (0 : Int) ≤ text.length := by omega
  rw [Received.of, if_pos sign, Int.toNat_natCast, take_received]

theorem of_long {bufSize size : Nat} (positive : 0 < bufSize) (long : bufSize < size) (buf : Bytes) :
    Received.of bufSize (-size) buf = .long size (buf.take bufSize) := by
  have sign : ¬ (0 : Int) ≤ -size := by omega
  have other : ¬ (-(size : Int) = -1) := by omega
  rw [Received.of, if_neg sign, if_neg other, Int.natAbs_neg, Int.natAbs_natCast]

theorem take_stored {bufSize : Nat} {text : Bytes} (enough : bufSize ≤ text.length) (buf : Bytes) :
    (received buf (text.take bufSize)).take bufSize = text.take bufSize := by
  have size : (text.take bufSize).length = bufSize := by
    rw [List.length_take]
    omega
  have front := take_received buf (text.take bufSize)
  rwa [size] at front

theorem take_header (size : Nat) (text : Bytes) : (header size ++ text).take 2 = header size :=
  List.take_left' (length_header size)

theorem drop_header (size : Nat) (text : Bytes) : (header size ++ text).drop 2 = text :=
  List.drop_left' (length_header size)

theorem header_there (size : Nat) (text : Bytes) : ¬ (header size ++ text).length < 2 := by
  rw [List.length_append, length_header]
  omega

theorem getNextMsg_cut {bufSize size : Nat} {text : Bytes} (buf : Bytes) (small : size ≤ UINT16_MAX)
    (missing : text.length < size) :
    getNextMsg (header size ++ text) buf bufSize =
      if text.length < min size bufSize then .returned (-1) (received buf text) []
      else if BUF_SIZE < text.length - bufSize then .storedBehindWaste
      else .returned (-size) (received buf (text.take bufSize)) [] := by
  simp only [getNextMsg, if_neg (header_there size text), take_header, drop_header, ntohs_header small]
  by_cases long : bufSize < size
  · have surplus : ((text.drop bufSize).take (size - bufSize)).length = text.length - bufSize := by
      rw [List.length_take, List.length_drop]
      omega
    have used : (text.drop bufSize).drop (size - bufSize) = [] := by
      rw [List.drop_drop, List.drop_eq_nil_iff]
      omega
    have total : -((bufSize : Int) + ((size - bufSize : Nat) : Int)) = -(size : Int) := by omega
    simp only [if_pos long, Nat.min_eq_right (Nat.le_of_lt long), if_pos (Nat.sub_pos_of_lt long), surplus, used, total]
  · have fits := Nat.not_lt.mp long
    simp only [if_neg long, Nat.min_eq_left fits, if_pos missing]

section call
variable {bufSize : Nat} (positive : 0 < bufSize) {buf : Bytes} (room : bufSize ≤ buf.length)
include positive room

theorem call_frame {payload : Bytes} (small : payload.length ≤ UINT16_MAX) (rest : Bytes) :
    ∃ s, call bufSize (some (frame payload ++ rest, buf)) = (s, [frameResult bufSize payload]) ∧
      Onward bufSize rest (frameResult bufSize payload) s := by
  by_cases fits : payload.length ≤ bufSize
  · refine ⟨some (rest, received buf payload), ?_, ?_⟩
    · rw [call, getNextMsg_frame buf small fits rest]
      dsimp only
      rw [of_message, frameResult, if_pos fits]
    · rw [frameResult, if_pos fits]
      exact .goes (by simp) (by rw [length_received (by omega)]; exact room)
  have long := Nat.not_le.mp fits
  have got := getNextMsg_long buf small long rest
  by_cases wasted : payload.length ≤ bufSize + BUF_SIZE
  · rw [if_neg (by omega)] at got
    refine ⟨some (rest, received buf (payload.take bufSize)), ?_, ?_⟩
    · rw [call, got]
      dsimp only
      rw [of_long positive long, take_stored (Nat.le_of_lt long), frameResult, if_neg fits, if_pos wasted]
    · rw [frameResult, if_neg fits, if_pos wasted]
      exact .goes (by simp) (by rw [length_received (by rw [List.length_take]; omega)]; exact room)
  · rw [if_pos (by omega)] at got
    refine ⟨none, ?_, ?_⟩
    · rw [call, got, frameResult, if_neg fits, if_neg wasted]
    · rw [frameResult, if_neg fits, if_neg wasted]
      exact .overrun rest

theorem call_tail {tail : Bytes} (ends : Tail tail) :
    ∃ s, call bufSize (some (tail, buf)) = (s, [tailResult bufSize tail]) ∧
      Onward bufSize [] (tailResult bufSize tail) s := by
  have ended (buf : Bytes) : Received.of bufSize (-1) buf = .ended := rfl
  cases ends with
  | short few =>
    refine ⟨some ([], buf), ?_, ?_⟩
    · rw [call, getNextMsg, if_pos few, tailResult, if_pos few]
      rfl
    · rw [tailResult, if_pos few]
      exact .goes (by simp) room
  | @cut size text small missing =>
    have got := @getNextMsg_cut bufSize size text buf small missing
    have result : tailResult bufSize (header size ++ text) = if text.length < min size bufSize then .ended
        else if text.length ≤ bufSize + BUF_SIZE then .long size (text.take bufSize) else .overrun := by
      rw [tailResult, if_neg (header_there size text), take_header, drop_header, ntohs_header small]
    rw [call, got, result]
    by_cases lacking : text.length < min size bufSize
    · rw [if_pos lacking, if_pos lacking]
      exact ⟨_, rfl, .goes (by simp) (by rw [length_received (by omega)]; exact room)⟩
    rw [if_neg lacking, if_neg lacking]
    by_cases wasted : text.length ≤ bufSize + BUF_SIZE
    · rw [if_neg (by omega), if_pos wasted]
      dsimp only
      rw [of_long positive (by omega), take_stored (by omega)]
      exact ⟨_, rfl, .goes (by simp) (by rw [length_received (by rw [List.length_take]; omega)]; exact room)⟩
    · rw [if_pos (by omega), if_neg wasted]
      exact ⟨none, rfl, .overrun []⟩

omit positive room in
theorem run_overrun (bufSize n : Nat) :
    ((caller bufSize).run (List.replicate n ()) none).2 = List.replicate n .overrun := by
  induction n with
  | zero => rfl
  | succ n ih =>
    rw [List.replicate_succ, Machine.run_cons, List.replicate_succ, ← ih]
    rfl

omit positive room in
theorem run_onward {stream rest : Bytes} {s : Option (Bytes × Bytes)} {result : Received} {items : List Received}
    (step : call bufSize (some (stream, buf)) = (s, [result])) (onward : Onward bufSize rest result s)
    (later : ∀ buf : Bytes, bufSize ≤ buf.length →
      ((caller bufSize).run (List.replicate items.length ()) (some (rest, buf))).2 = untilOverrun items) :
    ((caller bufSize).run (List.replicate (items.length + 1) ()) (some (stream, buf))).2 =
      untilOverrun (result :: items) := by
  have first : (caller bufSize).step () (some (stream, buf)) = (s, [result]) := step
  rw [List.replicate_succ, Machine.run_cons, first]
  dsimp only
  by_cases behind : result = .overrun
  · rw [Onward, if_pos behind] at onward
    rw [onward, run_overrun, behind]
    rfl
  · rw [Onward, if_neg behind] at onward
    obtain ⟨buf', rfl, room'⟩ := onward
    rw [later buf' room']
    cases result with
    | overrun => exact absurd rfl behind
    | message text | long size text | ended => rfl

theorem run_ended (k : Nat) :
    ((caller bufSize).run (List.replicate k ()) (some ([], buf))).2 = untilOverrun (List.replicate k .ended) := by
  induction k generalizing buf with
  | zero => rfl
  | succ k ih =>
    have none : Tail [] := .short (by decide)
    obtain ⟨s, step, onward⟩ := call_tail positive room none
    have later (buf : Bytes) (room : bufSize ≤ buf.length) :
        ((caller bufSize).run (List.replicate (List.replicate k Received.ended).length ()) (some ([], buf))).2 =
          untilOverrun (List.replicate k .ended) := by
      rw [List.length_replicate]
      exact ih room
    have all := run_onward step onward later
    rwa [List.length_replicate] at all

theorem run_frames {payloads : List Bytes} {tail : Bytes} (small : ∀ p ∈ payloads, p.length ≤ UINT16_MAX)
    (ends : Tail tail) (k : Nat) :
    ((caller bufSize).run (List.replicate (payloads.length + 1 + k) ())
        (some (payloads.flatMap frame ++ tail, buf))).2 =
      untilOverrun (payloads.map (frameResult bufSize) ++ tailResult bufSize tail :: List.replicate k .ended) := by
  induction payloads generalizing buf with
  | nil =>
    obtain ⟨s, step, onward⟩ := call_tail positive room ends
    have later (buf : Bytes) (room : bufSize ≤ buf.length) :
        ((caller bufSize).run (List.replicate (List.replicate k Received.ended).length ()) (some ([], buf))).2 =
          untilOverrun (List.replicate k .ended) := by
      rw [List.length_replicate]
      exact run_ended positive room k
    have all := run_onward step onward later
    rw [List.length_replicate, Nat.add_comm] at all
    rwa [List.length_nil, Nat.zero_add]
  | cons p rest ih =>
    obtain ⟨first, later⟩ := List.forall_mem_cons.mp small
    obtain ⟨s, step, onward⟩ := call_frame positive room first (rest.flatMap frame ++ tail)
    have size : (rest.map (frameResult bufSize) ++ tailResult bufSize tail :: List.replicate k .ended).length =
        rest.length + 1 + k := by
      rw [List.length_append, List.length_map, List.length_cons, List.length_replicate]
      omega
    have count : (p :: rest).length + 1 + k = rest.length + 1 + k + 1 := by
      rw [List.length_cons]
      omega
    have all := run_onward step onward (by rw [size]; exact fun buf room => ih room later)
    rw [size] at all
    rw [count, List.flatMap_cons, List.append_assoc]
    exact all

end call

/-- Called again and again on any stream, `GetNextMsg` delivers its complete frames, then what is left
of the last one if the buffer is full of it, and then reports the end; from the first frame on whose
surplus is longer than `waste` nothing is certain. -/
theorem getNextMsg_stream {bufSize : Nat} (positive : 0 < bufSize) (stream : Bytes) {buf : Bytes}
    (room : bufSize ≤ buf.length) :
    ∃ (payloads : List Bytes) (tail : Bytes), stream = payloads.flatMap frame ++ tail ∧
      (∀ p ∈ payloads, p.length ≤ UINT16_MAX) ∧ Tail tail ∧
      ∀ k, ((caller bufSize).run (List.replicate (payloads.length + 1 + k) ()) (some (stream, buf))).2 =
        untilOverrun (payloads.map (frameResult bufSize) ++ tailResult bufSize tail :: List.replicate k .ended) := by
  obtain ⟨payloads, tail, rfl, small, ends⟩ := exists_frames stream.length stream (Nat.le_refl _)
  exact ⟨payloads, tail, rfl, small, ends, fun k => run_frames positive room small ends k⟩

/-- A frame of one byte, and two bytes of one that is said to have three. -/
theorem getNextMsg_stream_cut :
    ∃ (payloads : List Bytes) (tail : Bytes), ([0, 1, 7, 0, 3, 8, 9] : Bytes) = payloads.flatMap frame ++ tail ∧
      (∀ p ∈ payloads, p.length ≤ UINT16_MAX) ∧ Tail tail ∧
      ∀ k, ((caller 1).run (List.replicate (payloads.length + 1 + k) ()) (some ([0, 1, 7, 0, 3, 8, 9], [0]))).2 =
        untilOverrun (payloads.map (frameResult 1) ++ tailResult 1 tail :: List.replicate k .ended) :=
  getNextMsg_stream (by decide) [0, 1, 7, 0, 3, 8, 9] (by decide)

example : ((caller 1).run (List.replicate 3 ()) (some ([0, 1, 7, 0, 3, 8, 9], [0]))).2 =
    [.message [7], .long 3 [8], .ended] := by decide

end SocketPrograms.Vote.LengthFramer
