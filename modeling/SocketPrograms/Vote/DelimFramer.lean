import SocketPrograms.Lib.CString

/-! `DelimFramer.c`, which the vote server and the vote client share. A stream is the bytes
that are still to be read, followed by end of file. -/

namespace SocketPrograms.Vote
open Lib.CString

def DELIM : UInt8 := 10

/-- How `GetNextMsg` ends: it returns, or `ExitWithUserMsg` ends the process. -/
inductive Framed where
  | returned (size : Int) (buf stream : Bytes)
  | exited
deriving DecidableEq, Repr

/-- The loop of `GetNextMsg` with `cnt` bytes stored, where `cnt < bufSize` and `buf` has
room for `bufSize` bytes. -/
def getNextMsgFrom (bufSize : Nat) : Nat → Bytes → Bytes → Framed
  | cnt, buf, [] => if 0 < cnt then .exited else .returned (-1) buf []
  | cnt, buf, nextChar :: stream =>
      if nextChar = DELIM then .returned cnt buf stream
      else if cnt + 1 < bufSize then getNextMsgFrom bufSize (cnt + 1) (buf.set cnt nextChar) stream
      else .returned (-(cnt + 1)) (buf.set cnt nextChar) stream

def getNextMsg (stream buf : Bytes) (bufSize : Nat) : Framed := getNextMsgFrom bufSize 0 buf stream

def putMsg (buf : Bytes) (msgSize : Nat) : Int × Bytes :=
  if DELIM ∈ buf.take msgSize then (-1, [])
  else if msgSize = 0 then (-1, [])
  else (msgSize, buf.take msgSize ++ [DELIM])

def received (buf text : Bytes) : Bytes := text ++ buf.drop text.length

inductive Frame (bufSize : Nat) (buf : Bytes) : Bytes → Framed → Prop where
  | line {text rest : Bytes} (clean : DELIM ∉ text) (short : text.length < bufSize) :
      Frame bufSize buf (text ++ DELIM :: rest) (.returned text.length (received buf text) rest)
  | full {text rest : Bytes} (clean : DELIM ∉ text) (long : text.length = bufSize) :
      Frame bufSize buf (text ++ rest) (.returned (-bufSize) (received buf text) rest)
  | ended : Frame bufSize buf [] (.returned (-1) buf [])
  | cut {text : Bytes} (clean : DELIM ∉ text) (nonempty : text ≠ []) (short : text.length < bufSize) :
      Frame bufSize buf text .exited

theorem length_received {buf text : Bytes} (short : text.length ≤ buf.length) :
    (received buf text).length = buf.length := by
  simp only [received, List.length_append, List.length_drop]
  omega

theorem take_received (buf text : Bytes) : (received buf text).take text.length = text := by
  simp [received]

theorem received_set {buf text : Bytes} (inside : text.length < buf.length) (c : UInt8) :
    (received buf text).set text.length c = received buf (text ++ [c]) := by
  have ahead : buf.drop text.length = buf[text.length] :: buf.drop (text.length + 1) :=
    List.drop_eq_getElem_cons inside
  rw [received, received, List.set_append_right text.length c (Nat.le_refl _), Nat.sub_self, ahead,
    List.set_cons_zero]
  simp

theorem getNextMsgFrom_frame {bufSize : Nat} {buf : Bytes} (room : bufSize ≤ buf.length) (stream : Bytes) :
    ∀ taken : Bytes, DELIM ∉ taken → taken.length < bufSize →
      Frame bufSize buf (taken ++ stream)
        (getNextMsgFrom bufSize taken.length (received buf taken) stream) := by
  induction stream with
  | nil =>
    intro taken clean short
    rcases List.eq_nil_or_concat' taken with rfl | ⟨front, last, rfl⟩
    · exact Frame.ended
    · have unfinished : Frame bufSize buf (front ++ [last]) .exited := Frame.cut clean (by simp) short
      simpa [getNextMsgFrom] using unfinished
  | cons c stream ih =>
    intro taken clean short
    rw [getNextMsgFrom]
    by_cases close : c = DELIM
    · subst close
      rw [if_pos rfl]
      exact Frame.line clean short
    have longer : DELIM ∉ taken ++ [c] := by simp [clean, Ne.symm close]
    have shift : taken ++ c :: stream = (taken ++ [c]) ++ stream := by simp
    have count : taken.length + 1 = (taken ++ [c]).length := by simp
    rw [if_neg close, received_set (by omega), shift]
    split_ifs with again
    · rw [count] at again ⊢
      exact ih _ longer again
    · have filled : (taken ++ [c]).length = bufSize := by omega
      have size : -((taken.length : Int) + 1) = -(bufSize : Int) := by omega
      rw [size]
      exact Frame.full longer filled

theorem getNextMsg_frame {bufSize : Nat} {buf : Bytes} (room : bufSize ≤ buf.length) (positive : 0 < bufSize)
    (stream : Bytes) : Frame bufSize buf stream (getNextMsg stream buf bufSize) :=
  getNextMsgFrom_frame room stream [] (by simp) positive

theorem Frame.positive {bufSize : Nat} {buf stream buf' rest : Bytes} {size : Int}
    (frame : Frame bufSize buf stream (.returned size buf' rest)) (positive : 0 < size) :
    ∃ text, stream = text ++ DELIM :: rest ∧ DELIM ∉ text ∧ text.length < bufSize ∧
      size = text.length ∧ buf' = received buf text := by
  cases frame with
  | line clean short => exact ⟨_, rfl, clean, short, rfl, rfl⟩
  | full clean long => omega
  | ended => omega

theorem getNextMsgFrom_line {bufSize : Nat} {buf text : Bytes} (room : bufSize ≤ buf.length) (rest : Bytes)
    (clean : DELIM ∉ text) :
    ∀ taken : Bytes, taken.length + text.length < bufSize →
      getNextMsgFrom bufSize taken.length (received buf taken) (text ++ DELIM :: rest) =
        .returned (taken ++ text).length (received buf (taken ++ text)) rest := by
  induction text with
  | nil => intro taken short; simp [getNextMsgFrom]
  | cons c text ih =>
    intro taken short
    simp only [List.mem_cons, not_or] at clean
    simp only [List.length_cons] at short
    have onward := ih clean.2 (taken ++ [c]) (by simp; omega)
    rw [List.cons_append, getNextMsgFrom, if_neg (Ne.symm clean.1), if_pos (by omega),
      received_set (by omega)]
    simpa using onward

theorem getNextMsg_line {bufSize : Nat} {buf text : Bytes} (room : bufSize ≤ buf.length) (rest : Bytes)
    (clean : DELIM ∉ text) (short : text.length < bufSize) :
    getNextMsg (text ++ DELIM :: rest) buf bufSize = .returned text.length (received buf text) rest := by
  have line := getNextMsgFrom_line room rest clean [] (by simpa using short)
  exact line

example : getNextMsg [86, 118, DELIM, 52] [0, 0, 0, 0] 4 = .returned 2 [86, 118, 0, 0] [52] := by decide

end SocketPrograms.Vote
