import SocketPrograms.Vote.Server

/-! The stream that `fdopen` makes of a client's socket with the mode `"r+"`. `getc` reads the socket
in segments, and `main` writes its replies with nothing but `GetNextMsg` in front of them. -/

namespace SocketPrograms.Vote
open Lib CString

structure Segment where
  first : UInt8
  more : Bytes
deriving DecidableEq, Repr

def Segment.bytes (segment : Segment) : Bytes := segment.first :: segment.more

structure Channel where
  /-- read from the socket and not yet by `getc` -/
  ahead : Bytes
  /-- for the calls of `read` to come -/
  incoming : List Segment
deriving DecidableEq, Repr

namespace Channel

def bytes (c : Channel) : Bytes := c.ahead ++ c.incoming.flatMap Segment.bytes

def getc (c : Channel) : Option UInt8 × Channel :=
  match c.ahead, c.incoming with
  | b :: ahead, incoming => (some b, ⟨ahead, incoming⟩)
  | [], segment :: incoming => (some segment.first, ⟨segment.more, incoming⟩)
  | [], [] => (none, c)

def after : Nat → Channel → Channel
  | 0, c => c
  | n + 1, c => after n c.getc.2

end Channel

/-- The C standard leaves open what output directly behind input does. Either the library drops what
it has read ahead, or it wants to set the socket back to where `getc` is, which fails: then nothing is
sent and `getc` returns `EOF`. -/
inductive Library where
  | drops
  | fails
deriving DecidableEq, Repr

/-- `fwrite`, `fputc` and `fflush`, of which `PutMsg` tests the first. -/
def Channel.output (lib : Library) (c : Channel) (bytes : Bytes) : Channel × Bytes :=
  if c.ahead = [] then (c, bytes)
  else
    match lib with
    | .drops => (⟨[], c.incoming⟩, bytes)
    | .fails => (⟨[], []⟩, [])

def Stdio.file (lib : Library) : Stdio Channel where
  bytes := Channel.bytes
  behind c rest := c.after (c.bytes.length - rest.length)
  output := Channel.output lib

namespace Channel

theorem getc_bytes (c : Channel) : c.getc.1 = c.bytes.head? ∧ c.getc.2.bytes = c.bytes.tail := by
  obtain ⟨ahead, incoming⟩ := c
  cases ahead with
  | cons b ahead => exact ⟨rfl, rfl⟩
  | nil =>
    cases incoming with
    | nil => exact ⟨rfl, rfl⟩
    | cons segment incoming => exact ⟨rfl, rfl⟩

@[simp] theorem after_bytes (n : Nat) (c : Channel) : (c.after n).bytes = c.bytes.drop n := by
  induction n generalizing c with
  | zero => rfl
  | succ n ih => rw [after, ih, c.getc_bytes.2, List.drop_tail]

theorem behind_bytes {lib : Library} {c : Channel} {text rest : Bytes} (split : c.bytes = text ++ rest) :
    ((Stdio.file lib).behind c rest).bytes = rest := by
  have count : c.bytes.length - rest.length = text.length := by
    rw [split, List.length_append, Nat.add_sub_cancel]
  have taken : ((Stdio.file lib).behind c rest).bytes = c.bytes.drop (c.bytes.length - rest.length) := after_bytes _ c
  rw [taken, count, split, List.drop_left]

theorem after_ahead (ahead : Bytes) (incoming : List Segment) :
    (⟨ahead, incoming⟩ : Channel).after ahead.length = ⟨[], incoming⟩ := by
  induction ahead with
  | nil => rfl
  | cons b ahead ih => exact ih

theorem after_add (m n : Nat) (c : Channel) : c.after (m + n) = (c.after m).after n := by
  induction m generalizing c with
  | zero => rw [Nat.zero_add, after]
  | succ m ih => rw [Nat.succ_add, after, ih, after]

theorem after_segments (segments later : List Segment) :
    (⟨[], segments ++ later⟩ : Channel).after (segments.flatMap Segment.bytes).length = ⟨[], later⟩ := by
  induction segments with
  | nil => rfl
  | cons segment segments ih =>
    have first : (⟨[], segment :: (segments ++ later)⟩ : Channel).after segment.bytes.length =
        ⟨[], segments ++ later⟩ := after_ahead segment.more _
    rw [List.flatMap_cons, List.length_append, after_add, List.cons_append, first, ih]

theorem behind_segments (lib : Library) (segments later : List Segment) :
    (Stdio.file lib).behind ⟨[], segments ++ later⟩ (later.flatMap Segment.bytes) = ⟨[], later⟩ := by
  have count : (⟨[], segments ++ later⟩ : Channel).bytes.length - (later.flatMap Segment.bytes).length =
      (segments.flatMap Segment.bytes).length := by
    simp [bytes]
  have taken : (Stdio.file lib).behind ⟨[], segments ++ later⟩ (later.flatMap Segment.bytes) =
      (⟨[], segments ++ later⟩ : Channel).after
        ((⟨[], segments ++ later⟩ : Channel).bytes.length - (later.flatMap Segment.bytes).length) := rfl
  rw [taken, count, after_segments]

section output
variable (lib : Library) (c : Channel) (bytes : Bytes)

theorem output_settled (settled : c.ahead = []) : c.output lib bytes = (c, bytes) := if_pos settled

theorem output_nothing (incoming : List Segment) :
    (Stdio.file lib).output ⟨[], incoming⟩ bytes = (⟨[], incoming⟩, bytes) :=
  output_settled lib ⟨[], incoming⟩ bytes rfl

theorem output_suffix : (c.output lib bytes).1.bytes <:+ c.bytes := by
  unfold output
  split_ifs
  · exact List.suffix_rfl
  · cases lib with
    | drops => exact List.suffix_append c.ahead _
    | fails => exact List.nil_suffix

theorem output_shorter (pending : c.ahead ≠ []) : (c.output lib bytes).1.bytes.length < c.bytes.length := by
  have some_ahead := List.length_pos_of_ne_nil pending
  unfold output
  rw [if_neg pending]
  cases lib with
  | drops =>
    simp only [Channel.bytes, List.nil_append, List.length_append]
    omega
  | fails =>
    simp only [Channel.bytes, List.flatMap_nil, List.append_nil, List.length_nil, List.length_append]
    omega

end output

/-- The second of two lines that arrive together is not read. -/
example : ((⟨[], [⟨86, [10, 86, 10]⟩]⟩ : Channel).after 2).output .drops [49, 10] = (⟨[], []⟩, [49, 10]) := by decide

end Channel
end SocketPrograms.Vote
