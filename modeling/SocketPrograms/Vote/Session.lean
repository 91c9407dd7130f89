import Mathlib.Data.List.TakeWhile
import SocketPrograms.Vote.Channel
import SocketPrograms.Vote.Turn

/-! The messages that the vote server hands to `Decode` in one connection, against the lines of
the stream. -/

namespace SocketPrograms.Vote
open Lib CString

def linesFrom : Bytes → Bytes → List Bytes
  | _, [] => []
  | line, b :: rest => if b = DELIM then line :: linesFrom [] rest else linesFrom (line ++ [b]) rest

def lines (stream : Bytes) : List Bytes := linesFrom [] stream

def GoodLine (line : Bytes) : Prop := 1 ≤ line.length ∧ line.length < MAX_WIRE_SIZE

instance : DecidablePred GoodLine := fun _ => inferInstanceAs (Decidable (_ ∧ _))

def goodLines (stream : Bytes) : List Bytes := (lines stream).takeWhile GoodLine

def place : Nat → List Bytes → List (Bytes × Nat)
  | _, [] => []
  | size, line :: rest => (line, size - (line.length + 1)) :: place (size - (line.length + 1)) rest

def messages (stream : Bytes) : List (Bytes × Nat) := place stream.length (goodLines stream)

/-- The items up to the first that fails, itself included. -/
def cutAfter {α : Type} : List Bool → List α → List α
  | _, [] => []
  | true :: _, item :: _ => [item]
  | false :: fails, item :: rest => item :: cutAfter fails rest
  | [], item :: rest => item :: rest

def Event.payload : Event → Option (Bytes × Nat)
  | .handed payload left => some (payload, left)
  | _ => none

/-- What goes to `Decode`, and how many bytes of the stream are behind it. -/
def handed (events : List Event) : List (Bytes × Nat) := events.filterMap Event.payload

def failed {σ : Type} (turn : State σ × List Event) : Bool :=
  Event.parseError ∈ turn.2 || Event.putError ∈ turn.2 ||
    match turn.1.phase with
    | .stopped .readBehindBuffer => true
    | _ => false

section session
variable (lib : Library) (conn : Connection Channel) (counts : List UInt64)

def fileServer : Machine (Arrival Channel) (State Channel) Event := serverOn (.file lib)

def session : List Event :=
  ((fileServer lib).runWhile State.serving conn.arrival (conn.stream.bytes.length + 1) 0 (conn.opened counts)).2

def turns : List (Arrival Channel × State Channel) :=
  (fileServer lib).visits State.serving conn.arrival (conn.stream.bytes.length + 1) 0 (conn.opened counts)

def turnFails (turn : Arrival Channel × State Channel) : Bool := failed ((fileServer lib).step turn.1 turn.2)

/-- The messages handed to `Decode` are the lines up to the first that is no message, and of these
those up to the first that fails. -/
structure SessionFramed : Prop where
  inOrder : handed (session lib conn counts) =
    cutAfter ((turns lib conn counts).map (turnFails lib)) (messages conn.stream.bytes)
  whole : ∀ item ∈ handed (session lib conn counts), item.1 ∈ lines conn.stream.bytes ∧ GoodLine item.1

end session

/-- `PutMsg` accepts the reply to a message, which is a request. -/
def answers (counts : List UInt64) (v : VoteInfo) (outBuf : Bytes) : Bool :=
  !v.isResponse &&
    match tally counts v with
    | none => false
    | some (_, w) =>
      match encode w outBuf MAX_WIRE_SIZE with
      | none => false
      | some (mSize, outBuf) => 0 ≤ (putMsg outBuf mSize).1

/-- `Decode` takes what is in the buffer for such a message. -/
def replies (counts : List UInt64) (inBuf outBuf : Bytes) : Bool :=
  match decode inBuf VoteInfo.zero with
  | some (true, v, _) => answers counts v outBuf
  | _ => false

/-- When output follows here no message gets lost: nothing has been read ahead, or no message comes
next, whether or not what was read ahead is dropped. -/
def Channel.Harmless (lib : Library) (c : Channel) : Prop :=
  c.ahead = [] ∨ goodLines c.bytes = [] ∧ (lib = .drops → goodLines (c.incoming.flatMap Segment.bytes) = [])

/-- If the next message is answered, its reply is harmless. -/
def Settled (lib : Library) (arrival : Arrival Channel) (s : State Channel) : Prop :=
  match s.phase with
  | .serving c inBuf =>
    match getNextMsg c.bytes inBuf MAX_WIRE_SIZE with
    | .returned mSize buf rest =>
      0 < mSize → replies s.counts buf arrival.outBuf.1 = true → ((Stdio.file lib).behind c rest).Harmless lib
    | .exited => True
  | _ => True

theorem linesFrom_clean {text : Bytes} (clean : DELIM ∉ text) (line rest : Bytes) :
    linesFrom line (text ++ rest) = linesFrom (line ++ text) rest := by
  induction text generalizing line with
  | nil => simp
  | cons b text ih =>
    simp only [List.mem_cons, not_or] at clean
    rw [List.cons_append, linesFrom, if_neg (Ne.symm clean.1), ih clean.2]
    simp

theorem lines_line {text : Bytes} (clean : DELIM ∉ text) (rest : Bytes) :
    lines (text ++ DELIM :: rest) = text :: lines rest := by
  rw [lines, linesFrom_clean clean, linesFrom, if_pos rfl]
  rfl

theorem lines_cut {text : Bytes} (clean : DELIM ∉ text) : lines text = [] := by
  have whole := linesFrom_clean clean [] []
  rw [List.append_nil] at whole
  exact whole

theorem linesFrom_head {line first : Bytes} {later : List Bytes} {stream : Bytes}
    (split : linesFrom line stream = first :: later) : line.length ≤ first.length := by
  induction stream generalizing line with
  | nil => simp [linesFrom] at split
  | cons b stream ih =>
    rw [linesFrom] at split
    split_ifs at split
    · rw [(List.cons.inj split).1]
    · have longer := ih split
      rw [List.length_append] at longer
      omega

theorem goodLines_line {text : Bytes} (clean : DELIM ∉ text) (good : GoodLine text) (rest : Bytes) :
    goodLines (text ++ DELIM :: rest) = text :: goodLines rest := by
  simp [goodLines, lines_line clean, good]

theorem goodLines_empty (rest : Bytes) : goodLines (DELIM :: rest) = [] := by
  have first : lines (DELIM :: rest) = [] :: lines rest := lines_line (show DELIM ∉ ([] : Bytes) by simp) rest
  simp [goodLines, first, GoodLine]

theorem goodLines_long {text : Bytes} (clean : DELIM ∉ text) (long : text.length = MAX_WIRE_SIZE) (rest : Bytes) :
    goodLines (text ++ rest) = [] := by
  have whole : lines (text ++ rest) = linesFrom text rest := linesFrom_clean clean [] rest
  rw [goodLines, whole]
  cases split : linesFrom text rest with
  | nil => rfl
  | cons first later =>
    have longer := linesFrom_head split
    have bad : ¬ GoodLine first := by
      unfold GoodLine
      omega
    simp [bad]

/-! ### Messages -/

theorem place_fst (size : Nat) (lines : List Bytes) : (place size lines).map Prod.fst = lines := by
  induction lines generalizing size with
  | nil => rfl
  | cons line rest ih => rw [place, List.map_cons, ih]

theorem messages_line {text : Bytes} (clean : DELIM ∉ text) (good : GoodLine text) (rest : Bytes) :
    messages (text ++ DELIM :: rest) = (text, rest.length) :: messages rest := by
  have size : (text ++ DELIM :: rest).length - (text.length + 1) = rest.length := by
    rw [List.length_append, List.length_cons]
    omega
  rw [messages, goodLines_line clean good, place, size, messages]

theorem messages_nil_iff (stream : Bytes) : messages stream = [] ↔ goodLines stream = [] := by
  rw [messages]
  cases goodLines stream <;> simp [place]

theorem cutAfter_head {α : Type} (fails : List Bool) (items : List α) :
    (cutAfter fails items).head? = items.head? := by
  cases items with
  | nil => rw [cutAfter]
  | cons item rest =>
    cases fails with
    | nil => rfl
    | cons fail fails => cases fail <;> rfl

theorem mem_cutAfter {α : Type} {fails : List Bool} {items : List α} {item : α}
    (member : item ∈ cutAfter fails items) : item ∈ items := by
  induction items generalizing fails with
  | nil => simp [cutAfter] at member
  | cons first rest ih =>
    cases fails with
    | nil => exact member
    | cons fail fails =>
      cases fail with
      | true =>
        rw [List.mem_singleton.mp member]
        exact List.mem_cons_self ..
      | false =>
        rcases List.mem_cons.mp member with same | later
        · rw [same]
          exact List.mem_cons_self ..
        · exact List.mem_cons_of_mem _ (ih later)

theorem message_or_none {inBuf : Bytes} (stream : Bytes) (room : inBuf.length = MAX_WIRE_SIZE) :
    (∃ text rest, stream = text ++ DELIM :: rest ∧ DELIM ∉ text ∧ GoodLine text) ∨
      goodLines stream = [] ∧ ∀ mSize buf rest, getNextMsg stream inBuf MAX_WIRE_SIZE = .returned mSize buf rest →
        ¬ 0 < mSize := by
  have frame := getNextMsg_frame (Nat.le_of_eq room.symm) (by decide) stream
  cases got : getNextMsg stream inBuf MAX_WIRE_SIZE with
  | exited =>
    rw [got] at frame
    cases frame with
    | cut clean nonempty short => exact Or.inr ⟨by simp [goodLines, lines_cut clean], by simp⟩
  | returned mSize buf rest =>
    rw [got] at frame
    by_cases positive : 0 < mSize
    · obtain ⟨text, split, clean, short, size, -⟩ := frame.positive positive
      exact Or.inl ⟨text, rest, split, clean, by omega, short⟩
    · apply Or.inr
      constructor
      · cases frame with
        | @line text rest clean short =>
          have empty : text = [] := List.length_eq_zero_iff.mp (by omega)
          rw [empty]
          exact goodLines_empty rest
        | full clean long => exact goodLines_long clean long _
        | ended => rfl
      · intro mSize' buf' rest' same
        cases same
        exact positive

theorem messages_head {stream text : Bytes} {left : Nat} (head : (messages stream).head? = some (text, left)) :
    text.length + 1 + left = stream.length := by
  rcases message_or_none stream zeros.2 with ⟨line, rest, rfl, clean, good⟩ | ⟨none, -⟩
  · rw [messages_line clean good, List.head?_cons, Option.some.injEq, Prod.mk.injEq] at head
    obtain ⟨rfl, rfl⟩ := head
    rw [List.length_append, List.length_cons]
    omega
  · rw [(messages_nil_iff stream).mpr none] at head
    cases head

/-! ### Turns -/

section turn
variable {σ : Type} {io : Stdio σ}

structure Sized (s : State σ) : Prop where
  counts : s.counts.length = 1001
  room : ∀ stream inBuf, s.phase = .serving stream inBuf → inBuf.length = MAX_WIRE_SIZE

inductive Ends (io : Stdio σ) (behind : σ) : Bool → State σ × List Event → Prop where
  | fails {turn : State σ × List Event} (bad : failed turn = true) (idle : turn.1.serving = false) :
      Ends io behind false turn
  | goesOn {turn : State σ × List Event} {counts : List UInt64} {left : Bytes} (good : failed turn = false)
      (here : turn.1 = ⟨counts, .serving behind left⟩) : Ends io behind false turn
  | replied {turn : State σ × List Event} {counts : List UInt64} {left bytes : Bytes} (good : failed turn = false)
      (here : turn.1 = ⟨counts, .serving (io.output behind bytes).1 left⟩) : Ends io behind true turn

theorem failed_handed (turn : State σ × List Event) (payload : Bytes) (later : Nat) :
    failed (turn.1, .handed payload later :: turn.2) = failed turn := by
  simp [failed]

theorem Ends.handed {behind : σ} {answered : Bool} {turn : State σ × List Event} (ends : Ends io behind answered turn)
    (payload : Bytes) (later : Nat) : Ends io behind answered (turn.1, .handed payload later :: turn.2) := by
  have same := failed_handed turn payload later
  cases ends with
  | fails bad idle => exact .fails (same.trans bad) idle
  | goesOn good here => exact .goesOn (same.trans good) here
  | replied good here => exact .replied (same.trans good) here

theorem Response.sized {counts : List UInt64} {rest : σ} {left : Bytes} {msg : VoteInfo} {s : State σ}
    {events : List Event} (response : Response io counts rest left msg s events) (size : counts.length = 1001)
    (room : left.length = MAX_WIRE_SIZE) : Sized s := by
  cases response with
  | ignored response => exact ⟨size, fun _ _ here => by cases here; exact room⟩
  | refused request counted => exact ⟨counted.size.trans size, fun _ _ here => by cases here⟩
  | replied request counted fits clean => exact ⟨counted.size.trans size, fun _ _ here => by cases here; exact room⟩

theorem serveOn_sized {counts : List UInt64} {stream : σ} {inBuf : Bytes} (outBuf : WireBuf)
    (size : counts.length = 1001) (room : inBuf.length = MAX_WIRE_SIZE) :
    Sized (serveOn io counts stream inBuf outBuf.1).1 := by
  have frame := getNextMsg_frame (Nat.le_of_eq room.symm) (by decide) (io.bytes stream)
  have idle (phase : Phase σ) (idle : ∀ stream inBuf, phase ≠ .serving stream inBuf) : Sized ⟨counts, phase⟩ :=
    ⟨size, fun stream inBuf here => absurd here (idle stream inBuf)⟩
  unfold serveOn
  cases got : getNextMsg (io.bytes stream) inBuf MAX_WIRE_SIZE with
  | exited => exact idle _ (by simp)
  | returned mSize buf rest =>
    rw [got] at frame
    dsimp only
    split_ifs with positive
    · obtain ⟨text, -, clean, short, -, rfl⟩ := frame.positive positive
      split
      · exact idle _ (by simp)
      · exact idle _ (by simp)
      next msg left ends =>
        refine (respondOn_response io (io.behind stream rest) left msg outBuf size).sized size ?_
        rw [length_decode ends, length_received (by omega), room]
    · exact idle _ (by simp)

theorem Sized.step {s : State σ} (sized : Sized s) (arrival : Arrival σ) : Sized ((serverOn io).step arrival s).1 := by
  obtain ⟨counts, phase⟩ := s
  cases phase with
  | accepting => exact ⟨sized.counts, fun _ _ here => by cases here; exact arrival.inBuf.2⟩
  | serving stream inBuf => exact serveOn_sized arrival.outBuf sized.counts (sized.room _ _ rfl)
  | stopped why => exact sized

theorem Sized.connections {s : State σ} (sized : Sized s) (conns : List (Connection σ)) :
    Sized ((connectionsOn io).run conns s).1 := by
  obtain ⟨arrivals, same⟩ := (serverOn io).run_of_stretches (connectionOn_stretch io) conns s
  rw [same]
  have kept (_ : List Event) (s : State σ) (arrival : Arrival σ) (sized : Sized s) :
      Sized ((serverOn io).step arrival s).1 := sized.step arrival
  exact @Machine.invariant_all _ _ _ (serverOn io) (fun _ => Sized) kept arrivals [] s sized

theorem start_sized : Sized (start : State σ) := ⟨List.length_replicate, fun _ _ here => by cases here⟩

theorem respondOn_ends {counts : List UInt64} (behind : σ) (left : Bytes) (v : VoteInfo) (outBuf : WireBuf)
    (size : counts.length = 1001) :
    handed (respondOn io counts behind left v outBuf.1).2 = [] ∧
      Ends io behind (answers counts v outBuf.1) (respondOn io counts behind left v outBuf.1) := by
  cases request : v.isResponse with
  | true =>
    rw [respondOn, if_pos request, answers, request]
    exact ⟨rfl, .goesOn rfl rfl⟩
  | false =>
    obtain ⟨counts', reply, tallied, counted⟩ := tally_counted size request
    have response : reply.isResponse = true := by rw [counted.rest]
    obtain ⟨rear, encoded, -⟩ := encode_response response outBuf
    have positive : 0 < (encodeHead reply).length + (encodeCount reply).length := by
      simp only [encodeCount, List.length_append, List.length_singleton]
      omega
    simp only [respondOn, answers, request, tallied, encoded, Bool.not_false, Bool.true_and, Bool.false_eq_true,
      if_false]
    rcases putMsg_cases (encodeCount reply ++ NUL :: rear) positive with refused | ⟨clean, put⟩
    · rw [refused]
      exact ⟨rfl, .fails rfl rfl⟩
    · have sign : ¬ (((encodeHead reply).length + (encodeCount reply).length : Nat) : Int) < 0 := by omega
      have accepted : decide (0 ≤ (((encodeHead reply).length + (encodeCount reply).length : Nat) : Int)) = true :=
        decide_eq_true (Int.natCast_nonneg _)
      rw [put, if_neg sign, accepted]
      exact ⟨rfl, .replied rfl rfl⟩

variable (io) in
theorem serveOn_line (counts : List UInt64) {stream : σ} {text rest inBuf : Bytes} (outBuf : WireBuf)
    (size : counts.length = 1001) (room : inBuf.length = MAX_WIRE_SIZE)
    (split : io.bytes stream = text ++ DELIM :: rest)
    (clean : DELIM ∉ text) (good : GoodLine text) :
    handed (serveOn io counts stream inBuf outBuf.1).2 = [(text, rest.length)] ∧
      Ends io (io.behind stream rest) (replies counts (received inBuf text) outBuf.1)
        (serveOn io counts stream inBuf outBuf.1) := by
  have positive : (0 : Int) < text.length := by exact_mod_cast good.1
  have payload : (received inBuf text).take (text.length : Int).toNat = text := take_received inBuf text
  rw [serveOn, split, getNextMsg_line (Nat.le_of_eq room.symm) rest clean good.2]
  dsimp only
  rw [if_pos positive, payload, replies]
  cases done : decode (received inBuf text) VoteInfo.zero with
  | none => exact ⟨rfl, .fails rfl rfl⟩
  | some out =>
    obtain ⟨result, v, left⟩ := out
    cases result with
    | false => exact ⟨rfl, .fails rfl rfl⟩
    | true =>
      obtain ⟨nothing, ends⟩ := respondOn_ends (io.behind stream rest) left v outBuf size
      exact ⟨congrArg ((text, rest.length) :: ·) nothing, ends.handed text rest.length⟩

end turn

theorem handed_append (events later : List Event) : handed (events ++ later) = handed events ++ handed later :=
  List.filterMap_append

theorem serveOn_none {σ : Type} (io : Stdio σ) (counts : List UInt64) {stream : σ} {inBuf : Bytes} (outBuf : Bytes)
    (none : ∀ mSize buf rest,
      getNextMsg (io.bytes stream) inBuf MAX_WIRE_SIZE = .returned mSize buf rest → ¬ 0 < mSize) :
    handed (serveOn io counts stream inBuf outBuf).2 = [] ∧
      (serveOn io counts stream inBuf outBuf).1.serving = false := by
  unfold serveOn
  cases got : getNextMsg (io.bytes stream) inBuf MAX_WIRE_SIZE with
  | exited => exact ⟨rfl, rfl⟩
  | returned mSize buf rest =>
    dsimp only
    rw [if_neg (none _ _ _ got)]
    exact ⟨rfl, rfl⟩

/-! ### Replies in front of what has been read ahead -/

section output
variable {lib : Library} {c : Channel} (pending : c.ahead ≠ []) (bytes : Bytes)
include pending

theorem harmless_iff :
    c.Harmless lib ↔ messages c.bytes = [] ∧ messages (c.output lib bytes).1.bytes = [] := by
  rw [Channel.Harmless, or_iff_right pending, messages_nil_iff, messages_nil_iff]
  unfold Channel.output
  rw [if_neg pending]
  cases lib with
  | drops => simp [Channel.bytes]
  | fails => simp [Channel.bytes, goodLines, lines, linesFrom]

theorem harmless_of_head (same : (messages (c.output lib bytes).1.bytes).head? = (messages c.bytes).head?) :
    c.Harmless lib := by
  rw [harmless_iff pending bytes]
  cases next : (messages c.bytes).head? with
  | none =>
    rw [next] at same
    exact ⟨List.head?_eq_none_iff.mp next, List.head?_eq_none_iff.mp same⟩
  | some item =>
    have before := messages_head next
    have behind := messages_head (same.trans next)
    have shorter := c.output_shorter lib bytes pending
    omega

end output

theorem replied_framed {lib : Library} {c : Channel} (bytes : Bytes) {later : List (Bytes × Nat)} {fails : List Bool}
    {settled : Prop} (head : later.head? = (messages (c.output lib bytes).1.bytes).head?)
    (onward : later = cutAfter fails (messages (c.output lib bytes).1.bytes) ↔ settled) :
    later = cutAfter fails (messages c.bytes) ↔ c.Harmless lib ∧ settled := by
  by_cases pending : c.ahead = []
  · rw [c.output_settled lib bytes pending] at onward
    rw [onward]
    exact (and_iff_right (Or.inl pending)).symm
  constructor
  · intro framed
    rw [framed, cutAfter_head] at head
    have harmless := harmless_of_head pending bytes head.symm
    obtain ⟨none, none'⟩ := (harmless_iff pending bytes).mp harmless
    rw [none'] at onward
    rw [none] at framed
    exact ⟨harmless, onward.mp framed⟩
  · intro ⟨harmless, all⟩
    obtain ⟨none, none'⟩ := (harmless_iff pending bytes).mp harmless
    rw [none'] at onward
    rw [none]
    exact onward.mpr all

/-! ### The session -/

section run
variable (lib : Library) (conn : Connection Channel)

theorem handed_head (fuel k : Nat) {s : State Channel} {c : Channel} {inBuf : Bytes}
    (here : s.phase = .serving c inBuf) (sized : Sized s) :
    (handed ((fileServer lib).runWhile State.serving conn.arrival (fuel + 1) k s).2).head? =
      (messages c.bytes).head? := by
  obtain ⟨counts, phase⟩ := s
  obtain rfl : phase = .serving c inBuf := here
  have turn : (fileServer lib).step (conn.arrival k) ⟨counts, .serving c inBuf⟩ =
      serveOn (.file lib) counts c inBuf (conn.outBuf k).1 := rfl
  have room := sized.room c inBuf rfl
  rw [(fileServer lib).runWhile_busy rfl, turn, handed_append]
  rcases message_or_none c.bytes room with ⟨text, rest, split, clean, good⟩ | ⟨none, last⟩
  · obtain ⟨first, -⟩ := serveOn_line (.file lib) counts (conn.outBuf k) sized.counts room split clean good
    rw [first, split, messages_line clean good]
    rfl
  · obtain ⟨nothing, idle⟩ := serveOn_none (.file lib) counts (conn.outBuf k).1 last
    rw [nothing, (fileServer lib).runWhile_idle idle, (messages_nil_iff _).mpr none]
    rfl

variable {lib} in
theorem settled_line {counts : List UInt64} {c : Channel} {inBuf text rest : Bytes} (arrival : Arrival Channel)
    (room : inBuf.length = MAX_WIRE_SIZE) (split : c.bytes = text ++ DELIM :: rest) (clean : DELIM ∉ text)
    (good : GoodLine text) :
    Settled lib arrival ⟨counts, .serving c inBuf⟩ ↔
      (replies counts (received inBuf text) arrival.outBuf.1 = true →
        ((Stdio.file lib).behind c rest).Harmless lib) := by
  have positive : (0 : Int) < text.length := by exact_mod_cast good.1
  simp only [Settled, split, getNextMsg_line (Nat.le_of_eq room.symm) rest clean good.2, positive, true_imp_iff]

variable {lib} in
theorem settled_none {counts : List UInt64} {c : Channel} {inBuf : Bytes} (arrival : Arrival Channel)
    (none : ∀ mSize buf rest, getNextMsg c.bytes inBuf MAX_WIRE_SIZE = .returned mSize buf rest → ¬ 0 < mSize) :
    Settled lib arrival ⟨counts, .serving c inBuf⟩ := by
  unfold Settled
  cases got : getNextMsg c.bytes inBuf MAX_WIRE_SIZE with
  | exited => simp [got]
  | returned mSize buf rest =>
    simp only [got]
    exact fun positive => absurd positive (none _ _ _ got)

/-- The rest of a session, by induction on the bound for its turns. It is framed if every reply is
harmless: what comes next behind one that is not is a message from another place, or none at all. -/
theorem framed_from (fuel k : Nat) {s : State Channel} {c : Channel} {inBuf : Bytes}
    (here : s.phase = .serving c inBuf) (sized : Sized s) (bound : c.bytes.length < fuel) :
    handed ((fileServer lib).runWhile State.serving conn.arrival fuel k s).2 =
        cutAfter (((fileServer lib).visits State.serving conn.arrival fuel k s).map (turnFails lib))
          (messages c.bytes) ↔
      ∀ turn ∈ (fileServer lib).visits State.serving conn.arrival fuel k s, Settled lib turn.1 turn.2 := by
  induction fuel generalizing k s c inBuf with
  | zero => omega
  | succ fuel ih =>
    obtain ⟨counts, phase⟩ := s
    obtain rfl : phase = .serving c inBuf := here
    have room := sized.room c inBuf rfl
    have after : Sized (serveOn (.file lib) counts c inBuf (conn.outBuf k).1).1 :=
      serveOn_sized (conn.outBuf k) sized.counts room
    have turn : (fileServer lib).step (conn.arrival k) ⟨counts, .serving c inBuf⟩ =
      serveOn (.file lib) counts c inBuf (conn.outBuf k).1 := rfl
    rw [(fileServer lib).runWhile_busy rfl, (fileServer lib).visits_busy rfl, handed_append, List.map_cons,
      List.forall_mem_cons, turnFails, turn]
    rcases message_or_none c.bytes room with ⟨text, rest, split, clean, good⟩ | ⟨none, last⟩
    · obtain ⟨first, ends⟩ := serveOn_line (.file lib) counts (conn.outBuf k) sized.counts room
        split clean good
      have whole : c.bytes = (text ++ [DELIM]) ++ rest := by rw [split, List.append_cons]
      have left : ((Stdio.file lib).behind c rest).bytes = rest := Channel.behind_bytes whole
      have shorter : rest.length < fuel := by
        rw [split, List.length_append, List.length_cons] at bound
        omega
      rw [first, split, messages_line clean good, settled_line (conn.arrival k) room split clean good]
      generalize serveOn (.file lib) counts c inBuf (conn.outBuf k).1 = result at ends after
      change Ends _ _ (replies counts (received inBuf text) (conn.arrival k).outBuf.1) result at ends
      generalize replies counts (received inBuf text) (conn.arrival k).outBuf.1 = answered at ends ⊢
      cases ends with
      | fails bad idle =>
        rw [bad, (fileServer lib).runWhile_idle idle, (fileServer lib).visits_idle idle]
        exact iff_of_true rfl ⟨by simp, by simp⟩
      | goesOn good here =>
        have onward := ih (k + 1) (congrArg State.phase here) after (by rw [left]; exact shorter)
        rw [left] at onward
        rw [good, cutAfter, List.singleton_append, List.cons.injEq, eq_self, true_and, onward]
        simp
      | @replied _ counts' left' bytes good here =>
        have some_fuel : fuel ≠ 0 := Nat.ne_of_gt (Nat.zero_lt_of_lt shorter)
        obtain ⟨n, rfl⟩ := Nat.exists_eq_succ_of_ne_zero some_fuel
        have suffix := (((Stdio.file lib).behind c rest).output_suffix lib bytes).length_le
        rw [left] at suffix
        have head := handed_head lib conn n (k + 1) (congrArg State.phase here) after
        have onward := ih (k + 1) (congrArg State.phase here) after (Nat.lt_of_le_of_lt suffix shorter)
        have both := replied_framed bytes head onward
        rw [left] at both
        rw [good, cutAfter, List.singleton_append, List.cons.injEq, eq_self, true_and, both]
        simp
    · obtain ⟨nothing, idle⟩ := serveOn_none (.file lib) counts (conn.outBuf k).1 last
      rw [nothing, (fileServer lib).runWhile_idle idle, (fileServer lib).visits_idle idle, (messages_nil_iff _).mpr none]
      exact iff_of_true rfl ⟨settled_none (conn.arrival k) last, by simp⟩

end run

/-- Whatever connections came before: the messages handed to `Decode` are the lines of the stream if
and only if every reply is harmless. -/
theorem session_framed_iff (lib : Library) (conns : List (Connection Channel)) (conn : Connection Channel) :
    let counts := ((connectionsOn (.file lib)).run conns start).1.counts
    SessionFramed lib conn counts ↔ ∀ turn ∈ turns lib conn counts, Settled lib turn.1 turn.2 := by
  intro counts
  have size : counts.length = 1001 := (start_sized.connections conns).counts
  have opened : Sized (conn.opened counts) := ⟨size, fun _ _ here => by cases here; exact conn.inBuf.2⟩
  have framed := framed_from lib conn (conn.stream.bytes.length + 1) 0 rfl opened (Nat.lt_succ_self _)
  refine Iff.trans ⟨fun all => all.inOrder, fun inOrder => ⟨inOrder, ?_⟩⟩ framed
  intro item member
  have placed : item ∈ messages conn.stream.bytes := mem_cutAfter (inOrder ▸ member)
  have good : item.1 ∈ goodLines conn.stream.bytes := by
    rw [← place_fst conn.stream.bytes.length (goodLines conn.stream.bytes)]
    exact List.mem_map_of_mem placed
  exact ⟨(List.takeWhile_prefix _).subset good, by simpa using List.mem_takeWhile_imp good⟩

def twoVotes : Connection Channel :=
  ⟨⟨[], [⟨86, ascii "oting v  12\nVoting v  4\n".toList⟩]⟩, zeros, fun _ => zeros⟩

/-- With neither library does the second vote get to `Decode`. -/
theorem two_votes_not_framed :
    ¬ SessionFramed .drops twoVotes (start : State Channel).counts ∧
      ¬ SessionFramed .fails twoVotes (start : State Channel).counts := by
  have unframed (lib : Library) : ¬ SessionFramed lib twoVotes (start : State Channel).counts := by
    intro framed
    have one : handed (session lib twoVotes (start : State Channel).counts) = [(ascii "Voting v  12".toList, 12)] := by
      cases lib <;> decide +kernel
    have two : cutAfter ((turns lib twoVotes (start : State Channel).counts).map (turnFails lib))
        (messages twoVotes.stream.bytes) =
          [(ascii "Voting v  12".toList, 12), (ascii "Voting v  4".toList, 0)] := by
      cases lib <;> decide +kernel
    have all := framed.inOrder
    rw [one, two] at all
    exact absurd all (by decide)
  exact ⟨unframed .drops, unframed .fails⟩

end SocketPrograms.Vote
