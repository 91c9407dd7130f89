import SocketPrograms.Lib.Words
import SocketPrograms.Lib.Numerals
import SocketPrograms.Vote.EncodingText

/-! The messages of the text encoding as lists of words, and `Decode` as a function of the
words of its buffer. -/

namespace SocketPrograms.Vote
open Lib CString Format

def tokens (buf : Bytes) : List Bytes := words DELIM_STR (cString buf)

def bodyOf (isInquiry : Bool) : List Bytes → Option VoteInfo
  | [] => none
  | third :: rest =>
      if third = RESPONSE_STR then
        match rest with
        | candidate :: count :: _ => some ⟨UInt64.ofInt (strtoll count), atoi candidate, isInquiry, true⟩
        | _ => none
      else some ⟨0, atoi third, isInquiry, false⟩

def frontOf (body : Bool → List Bytes → Option VoteInfo) : List Bytes → Option VoteInfo
  | magic :: kind :: rest =>
      if magic = MAGIC then
        if kind = VOTE_STR then body false rest
        else if kind = INQ_STR then body true rest
        else none
      else none
  | _ => none

def voteOf (words : List Bytes) : Option VoteInfo := frontOf bodyOf words

theorem bodyOf_request {third : Bytes} (plain : third ≠ RESPONSE_STR) (isInquiry : Bool) (rest : List Bytes) :
    bodyOf isInquiry (third :: rest) = some ⟨0, atoi third, isInquiry, false⟩ := by
  simp [bodyOf, plain]

theorem bodyOf_response (isInquiry : Bool) (candidate count : Bytes) (rest : List Bytes) :
    bodyOf isInquiry (RESPONSE_STR :: candidate :: count :: rest) =
      some ⟨UInt64.ofInt (strtoll count), atoi candidate, isInquiry, true⟩ := by
  simp [bodyOf]

def accepted (out : Bool × VoteInfo × Bytes) : Option VoteInfo := if out.1 then some out.2.1 else none

/-- On these words the reader accepts `msg`, or rejects them when it is `none`. -/
def Yields (p : Reader (Bool × VoteInfo)) (tokens : List Bytes) (msg : Option VoteInfo) : Prop :=
  ∃ result v, Reads DELIM_STR p tokens (result, v) ∧ (if result then some v else none) = msg

namespace Yields
variable {tokens : List Bytes}

theorem accept (v : VoteInfo) : Yields (pure (true, v)) tokens (some v) := ⟨true, v, Reads.pure _, rfl⟩

theorem reject (v : VoteInfo) : Yields (pure (false, v)) tokens none := ⟨false, v, Reads.pure _, rfl⟩

theorem strtok {f : Option Bytes → Reader (Bool × VoteInfo)} {msg : Option VoteInfo}
    (next : Yields (f tokens.head?) tokens.tail msg) : Yields (CString.strtok DELIM_STR >>= f) tokens msg := by
  obtain ⟨result, v, reads, same⟩ := next
  exact ⟨result, v, Reads.strtok_bind reads, same⟩

theorem reads {p : Reader (Bool × VoteInfo)} {buf : Bytes} {msg : Option VoteInfo} (nul : NUL ∈ buf)
    (yields : Yields p (Vote.tokens buf) msg) :
    ∃ result v s, p ⟨[], buf⟩ = some ((result, v), s) ∧ (if result then some v else none) = msg := by
  obtain ⟨result, v, reads, same⟩ := yields
  obtain ⟨s, ends, -⟩ := reads ⟨[], buf⟩ nul rfl
  exact ⟨result, v, s, ends, same⟩

end Yields

theorem decodeNumbers_yields {v : VoteInfo} (request : v.isResponse = false) (tok : Bytes) (rest : List Bytes) :
    Yields (decodeNumbers v tok) rest (some ⟨0, atoi tok, v.isInquiry, false⟩) := by
  simp only [decodeNumbers, request]
  exact Yields.accept _

theorem decodeNumbers_yields_count {v : VoteInfo} (response : v.isResponse = true) (tok : Bytes) (rest : List Bytes) :
    Yields (decodeNumbers v tok) rest (match rest with
      | count :: _ => some ⟨UInt64.ofInt (strtoll count), atoi tok, v.isInquiry, true⟩
      | [] => none) := by
  simp only [decodeNumbers, response, if_true]
  apply Yields.strtok
  cases rest with
  | nil => exact Yields.reject _
  | cons count rest => exact Yields.accept _

theorem decodeBody_yields (v : VoteInfo) (rest : List Bytes) :
    Yields (decodeBody v) rest (bodyOf v.isInquiry rest) := by
  apply Yields.strtok
  cases rest with
  | nil => exact Yields.reject _
  | cons third rest =>
    simp only [List.head?_cons, List.tail_cons, bodyOf]
    split_ifs with response
    · apply Yields.strtok
      cases rest with
      | nil => exact Yields.reject _
      | cons candidate rest =>
        have numbers := decodeNumbers_yields_count (v := { v with isResponse := true }) rfl candidate rest
        cases rest <;> exact numbers
    · exact decodeNumbers_yields rfl third rest

theorem front_yields {body : VoteInfo → Reader (Bool × VoteInfo)} {bodyOf : Bool → List Bytes → Option VoteInfo}
    {v : VoteInfo} (inner : ∀ isInquiry rest, Yields (body { v with isInquiry := isInquiry }) rest
      (bodyOf isInquiry rest)) (words : List Bytes) :
    Yields (CString.strtok DELIM_STR >>= fun tok =>
      if tok ≠ some MAGIC then pure (false, v)
      else CString.strtok DELIM_STR >>= fun
        | none => pure (false, v)
        | some tok =>
          if tok = VOTE_STR then body { v with isInquiry := false }
          else if tok = INQ_STR then body { v with isInquiry := true }
          else pure (false, v)) words (frontOf bodyOf words) := by
  apply Yields.strtok
  cases words with
  | nil => exact Yields.reject _
  | cons magic words =>
    simp only [List.head?_cons, List.tail_cons, ne_eq, Option.some.injEq, ite_not]
    split_ifs with first
    swap
    · have wrong : frontOf bodyOf (magic :: words) = none := by
        cases words <;> simp [frontOf, first]
      rw [wrong]
      exact Yields.reject _
    apply Yields.strtok
    cases words with
    | nil => exact Yields.reject _
    | cons kind words =>
      simp only [List.head?_cons, List.tail_cons, frontOf, if_pos first]
      split_ifs
      · exact inner _ words
      · exact inner _ words
      · exact Yields.reject _

theorem decodeFrom_yields (v : VoteInfo) (words : List Bytes) : Yields (decodeFrom v) words (voteOf words) :=
  front_yields (fun _ rest => decodeBody_yields _ rest) words

/-- `Decode` of a buffer with a NUL in it is decided by the words of the buffer, whatever the
record held before. -/
theorem decode_accepted {buf : Bytes} (nul : NUL ∈ buf) (v : VoteInfo) :
    (decode buf v).map accepted = some (voteOf (tokens buf)) := by
  obtain ⟨result, w, s, ends, same⟩ := (decodeFrom_yields v (tokens buf)).reads nul
  simp [decode, ends, accepted, same]

theorem decode_true_iff {buf : Bytes} (nul : NUL ∈ buf) (v w : VoteInfo) :
    (∃ left, decode buf v = some (true, w, left)) ↔ voteOf (tokens buf) = some w := by
  have same := decode_accepted nul v
  constructor
  · rintro ⟨left, done⟩
    simpa [done, accepted, eq_comm] using same
  · intro vote
    rw [vote, Option.map_eq_some_iff] at same
    obtain ⟨⟨result, w', left⟩, done, equal⟩ := same
    cases result with
    | false => simp [accepted] at equal
    | true =>
      obtain rfl : w' = w := by simpa [accepted] using equal
      exact ⟨left, done⟩

end SocketPrograms.Vote
