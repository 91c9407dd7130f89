import SocketPrograms.Lib.Parts
import SocketPrograms.Vote.Framer
import SocketPrograms.Vote.Session

/-! What a caller of `GetNextMsg` can make of a whole stream, its over-long lines included. A full
buffer without a delimiter comes back as a negative count, and the rest of the line follows. -/

namespace SocketPrograms.Vote
open Lib CString

inductive Piece where
  /-- the bytes in front of a delimiter -/
  | line (text : Bytes)
  /-- a full buffer -/
  | part (text : Bytes)
  | ended
  | exited
deriving DecidableEq, Repr

def Piece.bytes : Piece → Bytes
  | .line text => text ++ [DELIM]
  | .part text => text
  | .ended | .exited => []

/-- A count that is not negative is that of a line, `-bufSize` that of a full buffer. -/
def Piece.of (bufSize : Nat) (size : Int) (buf : Bytes) : Piece :=
  if 0 ≤ size then .line (buf.take size.toNat)
  else if size = -bufSize then .part (buf.take bufSize)
  else .ended

def call (bufSize : Nat) : Option (Bytes × Bytes) → Option (Bytes × Bytes) × List Piece
  | none => (none, [.exited])
  | some (stream, buf) =>
    match delimFramer.getNextMsg stream buf bufSize with
    | none => (none, [.exited])
    | some (size, buf, stream) => (some (stream, buf), [.of bufSize (asInt size) buf])

def caller (bufSize : Nat) : Machine Unit (Option (Bytes × Bytes)) Piece := ⟨fun _ => call bufSize⟩

def tailFrom : Bytes → Bytes → Bytes
  | line, [] => line
  | line, b :: rest => if b = DELIM then tailFrom [] rest else tailFrom (line ++ [b]) rest

def tail (stream : Bytes) : Bytes := tailFrom [] stream

def fragments (bufSize : Nat) (line : Bytes) : List Piece :=
  (parts bufSize line).map .part ++ [.line (remainder bufSize line)]

/-- What a stream is in pieces, up to an unterminated rest that fills no buffer. -/
def pieces (bufSize : Nat) (stream : Bytes) : List Piece :=
  (lines stream).flatMap (fragments bufSize) ++ (parts bufSize (tail stream)).map .part

/-! ### Lines and their fragments -/

theorem tailFrom_clean {text : Bytes} (clean : DELIM ∉ text) (line rest : Bytes) :
    tailFrom line (text ++ rest) = tailFrom (line ++ text) rest := by
  induction text generalizing line with
  | nil => simp
  | cons b text ih =>
    simp only [List.mem_cons, not_or] at clean
    rw [List.cons_append, tailFrom, if_neg (Ne.symm clean.1), ih clean.2]
    simp

theorem tail_line {text : Bytes} (clean : DELIM ∉ text) (rest : Bytes) : tail (text ++ DELIM :: rest) = tail rest := by
  rw [tail, tailFrom_clean clean, tailFrom, if_pos rfl, tail]

theorem tail_clean {text : Bytes} (clean : DELIM ∉ text) : tail text = text := by
  have whole := tailFrom_clean clean [] []
  rw [List.append_nil] at whole
  exact whole

theorem linesFrom_tailFrom (line stream : Bytes) :
    (linesFrom line stream).flatMap (· ++ [DELIM]) ++ tailFrom line stream = line ++ stream := by
  induction stream generalizing line with
  | nil => simp [linesFrom, tailFrom]
  | cons b rest ih =>
    rw [linesFrom, tailFrom]
    split_ifs with close
    · have later := ih []
      rw [List.flatMap_cons, List.append_assoc, later, close, List.append_assoc]
      rfl
    · rw [ih, List.append_assoc]
      rfl

theorem linesFrom_front (front line stream : Bytes) :
    (linesFrom line stream = [] ∧ linesFrom (front ++ line) stream = [] ∧
      tailFrom (front ++ line) stream = front ++ tailFrom line stream) ∨
    ∃ first later, linesFrom line stream = first :: later ∧
      linesFrom (front ++ line) stream = (front ++ first) :: later ∧
        tailFrom (front ++ line) stream = tailFrom line stream := by
  induction stream generalizing line with
  | nil => exact Or.inl ⟨rfl, rfl, rfl⟩
  | cons b rest ih =>
    simp only [linesFrom, tailFrom]
    split_ifs with close
    · exact Or.inr ⟨line, linesFrom [] rest, rfl, rfl, rfl⟩
    · rw [List.append_assoc]
      exact ih (line ++ [b])

section pieces
variable {bufSize : Nat} {text : Bytes} (clean : DELIM ∉ text)
include clean

theorem pieces_line (short : text.length < bufSize) (rest : Bytes) :
    pieces bufSize (text ++ DELIM :: rest) = .line text :: pieces bufSize rest := by
  rw [pieces, lines_line clean, tail_line clean, List.flatMap_cons, fragments, parts_short short,
    remainder_short short]
  rfl

theorem pieces_cut (short : text.length < bufSize) : pieces bufSize text = [] := by
  rw [pieces, lines_cut clean, tail_clean clean, parts_short short]
  rfl

theorem pieces_part (positive : 0 < bufSize) (full : text.length = bufSize) (rest : Bytes) :
    pieces bufSize (text ++ rest) = .part text :: pieces bufSize rest ∧
      (tail (text ++ rest)).length % bufSize = (tail rest).length % bufSize := by
  have whole : lines (text ++ rest) = linesFrom text rest := linesFrom_clean clean [] rest
  have left : tail (text ++ rest) = tailFrom text rest := tailFrom_clean clean [] rest
  have split := linesFrom_front text [] rest
  rw [List.append_nil] at split
  rcases split with ⟨none, none', tails⟩ | ⟨first, later, ends, ends', tails⟩
  · constructor
    · rw [pieces, pieces, whole, left, none', tails, parts_front full positive, lines, none]
      rfl
    · rw [left, tails, List.length_append, full, Nat.add_mod_left]
      rfl
  · constructor
    · rw [pieces, pieces, whole, left, ends', tails, List.flatMap_cons, fragments, parts_front full positive,
        remainder_front full positive, lines, ends]
      rfl
    · rw [left, tails]
      rfl

end pieces

theorem parts_bytes (texts : List Bytes) : (texts.map Piece.part).flatMap Piece.bytes = texts.flatten := by
  rw [List.flatMap_map]
  exact List.flatMap_id

theorem pieces_bytes {bufSize : Nat} (positive : 0 < bufSize) (stream : Bytes) :
    (pieces bufSize stream).flatMap Piece.bytes ++ remainder bufSize (tail stream) = stream := by
  have fragment (line : Bytes) : (fragments bufSize line).flatMap Piece.bytes = line ++ [DELIM] := by
    have single : [Piece.line (remainder bufSize line)].flatMap Piece.bytes = remainder bufSize line ++ [DELIM] :=
      List.append_nil _
    rw [fragments, List.flatMap_append, parts_bytes, single, ← List.append_assoc, parts_remainder positive]
  have whole := linesFrom_tailFrom [] stream
  calc (pieces bufSize stream).flatMap Piece.bytes ++ remainder bufSize (tail stream)
      = (lines stream).flatMap (fun line => (fragments bufSize line).flatMap Piece.bytes) ++
          ((parts bufSize (tail stream)).flatten ++ remainder bufSize (tail stream)) := by
        rw [pieces, List.flatMap_append, List.flatMap_assoc, parts_bytes, List.append_assoc]
    _ = (lines stream).flatMap (· ++ [DELIM]) ++ tail stream := by
        simp only [fragment, parts_remainder positive]
    _ = stream := whole

/-! ### Calls -/

/-- What is left to come of a stream: its pieces, and an end that depends on the bytes of its tail
that fill no buffer. -/
def Ahead (bufSize left : Nat) (items : List Piece) : Option (Bytes × Bytes) → Prop
  | none => items = [] ∧ left ≠ 0
  | some (stream, buf) =>
    bufSize ≤ buf.length ∧ pieces bufSize stream = items ∧ (tail stream).length % bufSize = left

def lastPiece (left : Nat) : Piece := if left = 0 then .ended else .exited

theorem call_eq {bufSize : Nat} {stream buf : Bytes} {size : Int} {buf' rest : Bytes}
    (got : getNextMsg stream buf bufSize = .returned size buf' rest) :
    call bufSize (some (stream, buf)) = (some (rest, buf'), [.of bufSize (asInt size) buf']) := by
  simp [call, delimFramer, got]

theorem call_step {bufSize left : Nat} {stream buf : Bytes} (big : 2 ≤ bufSize) (bound : bufSize ≤ INT_MAX)
    (room : bufSize ≤ buf.length) (rest : (tail stream).length % bufSize = left) :
    (∃ s', call bufSize (some (stream, buf)) = (s', [lastPiece left]) ∧ pieces bufSize stream = [] ∧
      Ahead bufSize left [] s') ∨
    ∃ piece items s', call bufSize (some (stream, buf)) = (s', [piece]) ∧ pieces bufSize stream = piece :: items ∧
      Ahead bufSize left items s' := by
  have frame := getNextMsg_frame room (by omega) stream
  generalize got : getNextMsg stream buf bufSize = framed at frame
  cases frame with
  | @line text later clean short =>
    have int : asInt text.length = text.length :=
      asInt_small (by omega) (by exact_mod_cast Nat.le_trans (Nat.le_of_lt short) bound)
    refine Or.inr ⟨.line text, pieces bufSize later, some (later, received buf text), ?_,
      pieces_line clean short later, ?_⟩
    · rw [call_eq got, int]
      simp [Piece.of, take_received]
    · rw [tail_line clean] at rest
      exact ⟨by rw [length_received (by omega)]; exact room, rfl, rest⟩
  | @full text later clean long =>
    obtain ⟨more, same⟩ := pieces_part clean (by omega) long later
    have int : asInt (-bufSize) = -bufSize := asInt_small (by simp only [INT_MAX] at bound; omega) (by omega)
    have negative : ¬ (0 : Int) ≤ -bufSize := by omega
    refine Or.inr ⟨.part text, pieces bufSize later, some (later, received buf text), ?_, more, ?_⟩
    · rw [call_eq got, int, Piece.of, if_neg negative, if_pos rfl, ← long, take_received]
    · exact ⟨by rw [length_received (by omega)]; exact room, rfl, by rw [← same, rest]⟩
  | ended =>
    have none : left = 0 := by rw [← rest]; exact Nat.zero_mod _
    have int : asInt (-1) = -1 := by decide
    have apart : (-1 : Int) ≠ -bufSize := by omega
    have nothing : pieces bufSize [] = [] := pieces_cut List.not_mem_nil (by simp; omega)
    refine Or.inl ⟨some ([], buf), ?_, nothing, room, nothing, rest⟩
    rw [call_eq got, int, Piece.of, if_neg (by decide), if_neg apart, lastPiece, if_pos none]
  | cut clean nonempty short =>
    have some_left : left ≠ 0 := by
      rw [← rest, tail_clean clean, Nat.mod_eq_of_lt short]
      exact fun zero => nonempty (List.eq_nil_of_length_eq_zero zero)
    refine Or.inl ⟨none, ?_, pieces_cut clean short, rfl, some_left⟩
    rw [lastPiece, if_neg some_left]
    simp [call, delimFramer, got]

/-- Called again and again, `GetNextMsg` delivers every line of the stream, in full buffers and a
rest where it is too long, and then reports the end, or ends the process when bytes are left
behind the last delimiter that fill no buffer. Nothing else of the stream is lost. -/
theorem getNextMsg_pieces {bufSize : Nat} (big : 2 ≤ bufSize) (bound : bufSize ≤ INT_MAX) (stream : Bytes)
    {buf : Bytes} (room : bufSize ≤ buf.length) (k : Nat) :
    ((caller bufSize).run (List.replicate ((pieces bufSize stream).length + k) ()) (some (stream, buf))).2 =
        pieces bufSize stream ++
          List.replicate k (if (tail stream).length % bufSize = 0 then .ended else .exited) ∧
      (pieces bufSize stream).flatMap Piece.bytes ++ remainder bufSize (tail stream) = stream := by
  refine ⟨?_, pieces_bytes (by omega) stream⟩
  generalize rest : (tail stream).length % bufSize = left
  have takes (piece : Piece) (items : List Piece) (s : Option (Bytes × Bytes))
      (ahead : Ahead bufSize left (piece :: items) s) :
      ∃ s', (caller bufSize).step () s = (s', [piece]) ∧ Ahead bufSize left items s' := by
    cases s with
    | none => exact absurd ahead.1 (List.cons_ne_nil _ _)
    | some s =>
      obtain ⟨room, here, left⟩ := ahead
      rcases call_step big bound room left with ⟨s', -, none, -⟩ | ⟨piece', items', s', step, more, onward⟩
      · rw [none] at here
        cases here
      · rw [more, List.cons.injEq] at here
        rw [← here.1, ← here.2]
        exact ⟨s', step, onward⟩
  have drained (s : Option (Bytes × Bytes)) (ahead : Ahead bufSize left [] s) :
      ∃ s', (caller bufSize).step () s = (s', [lastPiece left]) ∧ Ahead bufSize left [] s' := by
    cases s with
    | none =>
      refine ⟨none, ?_, ahead⟩
      rw [lastPiece, if_neg ahead.2]
      rfl
    | some s =>
      obtain ⟨room, here, left⟩ := ahead
      rcases call_step big bound room left with ⟨s', step, -, onward⟩ | ⟨piece', items', s', -, more, -⟩
      · exact ⟨s', step, onward⟩
      · rw [more] at here
        cases here
  have start : Ahead bufSize left (pieces bufSize stream) (some (stream, buf)) := ⟨room, rfl, rest⟩
  have all := (caller bufSize).run_items (Ahead bufSize left) takes drained start k
  rwa [List.map_id'] at all

/-- A line that fills two buffers exactly, and a letter behind it that no delimiter follows. -/
theorem getNextMsg_pieces_exact :
    ((caller 2).run (List.replicate (3 + 1) ()) (some ([97, 98, 99, 100, DELIM, 101], [0, 0]))).2 =
        [.part [97, 98], .part [99, 100], .line []] ++ List.replicate 1 .exited ∧
      ([.part [97, 98], .part [99, 100], .line []] : List Piece).flatMap Piece.bytes ++ [101] =
        [97, 98, 99, 100, DELIM, 101] :=
  @getNextMsg_pieces 2 (by decide) (by decide) [97, 98, 99, 100, DELIM, 101] [0, 0] (by decide) 1

end SocketPrograms.Vote
