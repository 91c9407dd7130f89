import SocketPrograms.Vote.Exchange
import SocketPrograms.Vote.Numbers

/-! What the vote client prints. It stores the result of `GetNextMsg` in a `size_t`, does not
test it, and calls `Decode` on whatever is in the buffer. -/

namespace SocketPrograms.Vote
open Lib CString Format

def OwnMessage (stream : Bytes) (size : Int) (vi : VoteInfo) : Prop :=
  ∃ text rest, stream = text ++ DELIM :: rest ∧ DELIM ∉ text ∧ 1 ≤ text.length ∧
    text.length < MAX_WIRE_SIZE ∧ size = text.length ∧ voteOf (tokens text) = some vi

/-- The client fails, reports a decode error, or prints a message that it has received. -/
def ReportsOwn (run : ClientRun) (stream : Bytes) : Prop :=
  match run.response stream with
  | .exited => True
  | .decodeError _ => True
  | .received size vi => OwnMessage stream size vi
  | .readBehindBuffer => False
  | .storedBehindBuffer => False

def Message (words : List Bytes) : Prop := ∃ isInquiry candidate count, Fields words isInquiry candidate count

def joined (residue : Bytes) : Bytes := (cString residue).takeWhile (· ≠ DELIM_STR)

/-- The number at the end of a message is the same with these bytes behind it. -/
def KeepsNumber (more : Bytes) : List Bytes → Prop
  | [_, _, candidate] => atoi (candidate ++ more) = atoi candidate
  | [_, _, _, _, count] => strtoll (count ++ more) = strtoll count
  | _ => True

/-- A line that is a message keeps the number at its end, and one that is none does not become one
through the residue behind it. -/
def KeepsMessage (line residue : Bytes) : Prop :=
  (Message (tokens line) → KeepsNumber (joined residue) (tokens line)) ∧
    (Message (tokens (line ++ residue)) → Message (tokens line))

/-- What `Decode` finds in the buffer, for a next line that is too long, empty, or a complete
message; behind a line that is cut it is not called. -/
def Clear (inbuf stream : Bytes) : Prop :=
  if MAX_WIRE_SIZE ≤ (nextLine stream).length then
    SelfDelimited ((nextLine stream).take MAX_WIRE_SIZE) ∧
      ¬ Message (tokens ((nextLine stream).take MAX_WIRE_SIZE))
  else if nextLine stream = [] then SelfDelimited inbuf ∧ ¬ Message (tokens inbuf)
  else DELIM ∈ stream → SelfDelimited (nextLine stream) ∨
    SelfDelimited (received inbuf (nextLine stream)) ∧
      KeepsMessage (nextLine stream) (inbuf.drop (nextLine stream).length)

/-- The same for every content of the buffer: the next line is there, and decides by itself. -/
def Reliable (stream : Bytes) : Prop :=
  if MAX_WIRE_SIZE ≤ (nextLine stream).length then
    SelfDelimited ((nextLine stream).take MAX_WIRE_SIZE) ∧
      ¬ Message (tokens ((nextLine stream).take MAX_WIRE_SIZE))
  else nextLine stream ≠ [] ∧ (DELIM ∈ stream → SelfDelimited (nextLine stream))

theorem message_iff (words : List Bytes) : Message words ↔ voteOf words ≠ none := by
  constructor
  · intro message
    obtain ⟨isInquiry, candidate, count, fields⟩ := message
    rw [fields.vote]
    simp
  · intro vote
    obtain ⟨w, same⟩ := Option.ne_none_iff_exists'.mp vote
    exact fields_of_vote same

theorem tokens_undecided {line : Bytes} (undecided : ¬ SelfDelimited line) :
    ∃ closed last, ¬ Decided closed ∧
      ∀ residue, tokens (line ++ residue) = closed ++ wordsFrom DELIM_STR last (cString residue) := by
  rw [SelfDelimited, not_or] at undecided
  obtain ⟨noNul, open_end⟩ := undecided
  obtain ⟨last, split⟩ := wordsFrom_append DELIM_STR [] line
  refine ⟨closedTokens DELIM_STR line, last, open_end, fun residue => ?_⟩
  have all := List.takeWhile_eq_self_iff.mp (cString_of_clean noNul)
  rw [tokens, words, cString, List.takeWhile_append_of_pos all]
  exact split _

theorem Fields.decided {words : List Bytes} {isInquiry : Bool} {candidate : Bytes} {count : Option Bytes}
    (fields : Fields words isInquiry candidate count) : Decided words := by
  cases fields with
  | request plain => exact Or.inr (Or.inr (Or.inl plain))
  | response => exact Or.inr (Or.inr (Or.inr (by simp)))

theorem message_undecided {closed : List Bytes} {last : Bytes} (undecided : ¬ Decided closed)
    (message : Message (closed ++ wordsFrom DELIM_STR last [])) :
    last ≠ [] ∧ ∃ isInquiry, closed = [MAGIC, kindStr isInquiry] ∧ last ≠ RESPONSE_STR ∨
      ∃ candidate, closed = [MAGIC, kindStr isInquiry, RESPONSE_STR, candidate] := by
  obtain ⟨isInquiry, candidate, count, fields⟩ := message
  have begun : last ≠ [] := by
    intro nothing
    have all : closed ++ wordsFrom DELIM_STR last [] = closed := by simp [nothing, wordsFrom]
    rw [all] at fields
    exact undecided fields.decided
  have one : wordsFrom DELIM_STR last [] = [last] := if_neg begun
  rw [one] at fields
  refine ⟨begun, isInquiry, ?_⟩
  have shut {third : Bytes} {rest : List Bytes} (plain : third ≠ RESPONSE_STR)
      (same : closed = MAGIC :: kindStr isInquiry :: third :: rest) : False := by
    subst same
    exact undecided (Or.inr (Or.inr (Or.inl plain)))
  rcases closed with _ | ⟨magic, _ | ⟨kind, _ | ⟨third, _ | ⟨candidate, _ | ⟨count, rest⟩⟩⟩⟩⟩
  · cases fields
  · cases fields
  · cases fields with
    | request plain => exact Or.inl ⟨rfl, plain⟩
  · cases fields with
    | request plain => exact (shut plain rfl).elim
  · cases fields with
    | request plain => exact (shut plain rfl).elim
    | response => exact Or.inr ⟨_, rfl⟩
  · cases fields with
    | request plain => exact (shut plain rfl).elim
    | response => exact absurd (Or.inr (Or.inr (Or.inr (by simp)))) undecided

theorem longer_number {closed others : List Bytes} {last more : Bytes} (undecided : ¬ Decided closed)
    (message : Message (closed ++ [last])) (begun : last ≠ []) :
    (∀ vi, voteOf (closed ++ (last ++ more) :: others) = some vi → voteOf (closed ++ [last]) = some vi) ↔
      KeepsNumber more (closed ++ [last]) := by
  have one : wordsFrom DELIM_STR last [] = [last] := if_neg begun
  obtain ⟨-, isInquiry, ⟨rfl, plain⟩ | ⟨candidate, rfl⟩⟩ := message_undecided undecided (one.symm ▸ message)
  · have longer : last ++ more ≠ RESPONSE_STR := by
      intro same
      have size := congrArg List.length same
      have solid := List.length_pos_iff.mpr begun
      simp only [List.length_append, RESPONSE_STR, ascii, List.map_cons, List.map_nil, List.length_cons,
        List.length_nil] at size
      have none : more = [] := List.eq_nil_of_length_eq_zero (by omega)
      rw [none, List.append_nil] at same
      exact plain same
    simp [voteOf_kind, bodyOf_request plain, bodyOf_request longer, KeepsNumber, eq_comm]
  · simp [voteOf_kind, bodyOf_response, KeepsNumber, ofInt_strtoll_inj, eq_comm]

theorem keepsMessage_iff {line : Bytes} (undecided : ¬ SelfDelimited line) (residue : Bytes) :
    (∀ vi, voteOf (tokens (line ++ residue)) = some vi → voteOf (tokens line) = some vi) ↔
      KeepsMessage line residue := by
  obtain ⟨closed, last, unclosed, split⟩ := tokens_undecided undecided
  have own := split []
  rw [List.append_nil, show cString [] = [] from rfl] at own
  by_cases message : Message (tokens line)
  · have begun := (message_undecided unclosed (own ▸ message)).1
    obtain ⟨others, longer⟩ := wordsFrom_begun DELIM_STR begun (cString residue)
    rw [show wordsFrom DELIM_STR last [] = [last] from if_neg begun] at own
    simp only [KeepsMessage, message, implies_true, and_true, forall_const, split, longer]
    rw [own] at message ⊢
    exact longer_number unclosed message begun
  · have rejected : voteOf (tokens line) = none := by
      rw [← not_not (a := _ = _)]
      exact fun vote => message ((message_iff _).mpr vote)
    simp only [KeepsMessage, message, false_implies, true_and, imp_false, rejected, message_iff, ne_eq, not_not,
      Option.eq_none_iff_forall_ne_some, reduceCtorEq]

/-- A buffer that ends the reading of `Decode` is decoded as its words are. -/
theorem decode_own {buf : Bytes} (own : SelfDelimited buf) (v : VoteInfo) (more : Bytes) :
    (decode (buf ++ more) v).map accepted = some (voteOf (tokens buf)) := by
  have reads : decode buf v ≠ none := by
    rw [Ne, decode_none_iff]
    exact not_not_intro own
  have closed := decode_accepted (show NUL ∈ buf ++ [NUL] by simp) v
  rw [tokens, cString_closed, ← tokens] at closed
  unfold decode at *
  split at reads
  next starved => exact absurd rfl reads
  next r w s ends =>
    rw [(decodeFrom_local v).grows [NUL] ends] at closed
    rw [(decodeFrom_local v).grows more ends]
    exact closed

theorem selfDelimited_append {text : Bytes} (own : SelfDelimited text) (more : Bytes) :
    SelfDelimited (text ++ more) := by
  rw [← not_not (a := SelfDelimited (text ++ more)), ← verdict_none_iff, verdict_append own, verdict_none_iff]
  exact not_not_intro own

theorem voteOf_append {text : Bytes} (own : SelfDelimited text) (more : Bytes) :
    voteOf (tokens (text ++ more)) = voteOf (tokens text) := by
  have whole := decode_own (selfDelimited_append own more) VoteInfo.zero []
  have front := decode_own own VoteInfo.zero more
  rw [List.append_nil, front, Option.some.injEq] at whole
  exact whole.symm

theorem reportsOwn_exited {run : ClientRun} {stream : Bytes}
    (got : getNextMsg stream run.inbuf.1 MAX_WIRE_SIZE = .exited) : ReportsOwn run stream := by
  simp [ReportsOwn, ClientRun.response, got]

theorem reportsOwn_returned {run : ClientRun} {stream buf rest : Bytes} {size : Int}
    (got : getNextMsg stream run.inbuf.1 MAX_WIRE_SIZE = .returned size buf rest) :
    ReportsOwn run stream ↔
      SelfDelimited buf ∧ ∀ vi, voteOf (tokens buf) = some vi → OwnMessage stream size vi := by
  by_cases own : SelfDelimited buf
  · have same := decode_own own run.vi []
    rw [List.append_nil] at same
    obtain ⟨⟨result, vi, left⟩, done, equal⟩ := Option.map_eq_some_iff.mp same
    cases result with
    | false =>
      have rejected : voteOf (tokens buf) = none := by simpa [accepted, eq_comm] using equal
      simp [ReportsOwn, ClientRun.response, got, done, own, rejected]
    | true =>
      have vote : voteOf (tokens buf) = some vi := by simpa [accepted, eq_comm] using equal
      simp [ReportsOwn, ClientRun.response, got, done, own, vote]
  · have beyond := (decode_none_iff buf run.vi).mpr own
    simp [ReportsOwn, ClientRun.response, got, beyond, own]

theorem ownMessage_line {text rest : Bytes} (clean : DELIM ∉ text) (nonempty : text ≠ [])
    (short : text.length < MAX_WIRE_SIZE) (vi : VoteInfo) :
    OwnMessage (text ++ DELIM :: rest) text.length vi ↔ voteOf (tokens text) = some vi := by
  constructor
  · intro own
    obtain ⟨text', rest', split, clean', -, -, -, vote⟩ := own
    have same : text = text' := by rw [← nextLine_line clean rest, split, nextLine_line clean']
    rw [same]
    exact vote
  · intro vote
    exact ⟨text, rest, rfl, clean, List.length_pos_iff.mpr nonempty, short, rfl, vote⟩

theorem not_ownMessage {stream : Bytes} {size : Int} (none : size ≤ 0) (vi : VoteInfo) :
    ¬ OwnMessage stream size vi := by
  intro own
  obtain ⟨text, rest, -, -, positive, -, same, -⟩ := own
  omega

theorem reportsOwn_nothing {run : ClientRun} {stream buf rest : Bytes} {size : Int} (none : size ≤ 0)
    (got : getNextMsg stream run.inbuf.1 MAX_WIRE_SIZE = .returned size buf rest) :
    ReportsOwn run stream ↔ SelfDelimited buf ∧ ¬ Message (tokens buf) := by
  rw [reportsOwn_returned got, message_iff, ne_eq, not_not]
  apply and_congr_right
  intro own
  constructor
  · intro silent
    rw [Option.eq_none_iff_forall_ne_some]
    exact fun vi vote => not_ownMessage none vi (silent vi vote)
  · intro rejected vi vote
    rw [rejected] at vote
    cases vote

theorem reportsOwn_iff (run : ClientRun) (stream : Bytes) :
    ReportsOwn run stream ↔ Clear run.inbuf.1 stream := by
  have frame := getNextMsg_frame (Nat.le_of_eq run.inbuf.2.symm) (by decide) stream
  generalize got : getNextMsg stream run.inbuf.1 MAX_WIRE_SIZE = framed at frame
  unfold Clear
  cases frame with
  | @line text rest clean short =>
    rw [nextLine_line clean, if_neg (Nat.not_le.mpr short)]
    by_cases empty : text = []
    · subst empty
      rw [if_pos rfl]
      exact reportsOwn_nothing (Int.le_refl 0) got
    · have complete : DELIM ∈ text ++ DELIM :: rest := by simp
      rw [if_neg empty, reportsOwn_returned got]
      simp only [complete, forall_const, ownMessage_line clean empty short]
      by_cases own : SelfDelimited text
      · refine iff_of_true ⟨selfDelimited_append own _, fun vi vote => ?_⟩ (Or.inl own)
        exact (voteOf_append own _).symm.trans vote
      · rw [or_iff_right own]
        exact and_congr_right fun _ => keepsMessage_iff own _
  | @full text rest clean long =>
    have size : MAX_WIRE_SIZE ≤ (nextLine (text ++ rest)).length := by
      rw [nextLine_append clean, List.length_append]
      omega
    have front : (nextLine (text ++ rest)).take MAX_WIRE_SIZE = text := by
      rw [nextLine_append clean, ← long, List.take_left]
    have buffer : received run.inbuf.1 text = text := by
      rw [received, long, List.drop_of_length_le (Nat.le_of_eq run.inbuf.2), List.append_nil]
    rw [buffer] at got
    rw [if_pos size, front]
    exact reportsOwn_nothing (by omega) got
  | ended =>
    have small : ¬ MAX_WIRE_SIZE ≤ (nextLine []).length := by decide
    rw [if_neg small, if_pos (show nextLine [] = [] from rfl)]
    exact reportsOwn_nothing (by decide) got
  | cut clean nonempty short =>
    have whole : nextLine stream = stream := by simpa [nextLine] using nextLine_append clean []
    rw [whole, if_neg (Nat.not_le.mpr short), if_neg nonempty]
    exact iff_of_true (reportsOwn_exited got) fun inside => absurd inside clean

def staleReply : WireBuf :=
  ⟨received zeros.1 (ascii ['V', 'o', 't', 'i', 'n', 'g', ' ', 'v', ' ', 'R', ' ', '4', ' ', '7']), by decide +kernel⟩

theorem clear_all_iff (stream : Bytes) : (∀ inbuf : WireBuf, Clear inbuf.1 stream) ↔ Reliable stream := by
  unfold Clear Reliable
  split_ifs with long empty
  · exact ⟨fun all => all zeros, fun clear _ => clear⟩
  · refine iff_of_false ?_ fun reliable => reliable.1 empty
    intro all
    have read : voteOf (tokens staleReply.1) = some ⟨7, 4, false, true⟩ := by decide +kernel
    have message : Message (tokens staleReply.1) := by
      rw [message_iff, read]
      simp
    exact (all staleReply).2 message
  · have shorter := Nat.not_le.mp long
    constructor
    · intro all
      refine ⟨empty, fun complete => ?_⟩
      by_contra undecided
      -- letters behind the line never end its last token
      let letters : WireBuf := ⟨List.replicate MAX_WIRE_SIZE 120, List.length_replicate⟩
      have closed := ((all letters complete).resolve_left undecided).1
      refine not_selfDelimited_append undecided ?_ ?_ closed
      all_goals
        intro member
        have letter := List.eq_of_mem_replicate (List.mem_of_mem_drop member)
        exact absurd letter (by decide)
    · intro reliable inbuf complete
      exact Or.inl (reliable.2 complete)

/-- The client reports only what it has received exactly when the buffer it decodes is clear;
whatever the buffer held, exactly when the stream is reliable. -/
theorem client_reports_iff (run : ClientRun) (stream : Bytes) :
    (ReportsOwn run stream ↔ Clear run.inbuf.1 stream) ∧
      ((∀ run, ReportsOwn run stream) ↔ Reliable stream) := by
  refine ⟨reportsOwn_iff run stream, ?_⟩
  rw [← clear_all_iff]
  constructor
  · intro all inbuf
    exact (reportsOwn_iff { run with inbuf := inbuf } stream).mp (all _)
  · intro all run
    exact (reportsOwn_iff run stream).mpr (all run.inbuf)

/-- The server closes the connection without a byte, and the client prints seven votes. -/
theorem stale_reply_printed : ¬ ReportsOwn { firstVote with inbuf := staleReply } [] := by
  have printed : ({ firstVote with inbuf := staleReply } : ClientRun).response [] =
      .received (-1) ⟨7, 4, false, true⟩ := by decide +kernel
  rw [ReportsOwn, printed]
  exact not_ownMessage (by decide) _

end SocketPrograms.Vote
