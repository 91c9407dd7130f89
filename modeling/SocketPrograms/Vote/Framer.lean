import Mathlib.Algebra.Ring.Int.Defs
import SocketPrograms.Lib.Frames
import SocketPrograms.Vote.DelimFramer

/-! `Framer.h`, the interface that both framers implement, and what it takes for a row of
messages to come back from a stream. -/

namespace SocketPrograms.Vote
open Lib CString

def INT_MAX : Nat := 2147483647

def asInt (i : Int) : Int := (Int32.ofInt i).toInt

/-- `PutMsg` gives its value and the bytes it writes, `GetNextMsg` its value with the buffer
and the stream it leaves, or `none` where it does not return. -/
structure Framer where
  putMsg : Bytes → Nat → Int × Bytes
  getNextMsg : Bytes → Bytes → Nat → Option (Int × Bytes × Bytes)

theorem asInt_small {i : Int} (low : -2 ^ 31 ≤ i) (high : i ≤ INT_MAX) : asInt i = i := by
  simp only [INT_MAX] at high
  exact Int32.toInt_ofInt_of_le low (by omega)

namespace Framer
variable (F : Framer)

def put (payload : Bytes) : Int × Bytes :=
  (asInt (F.putMsg payload payload.length).1, (F.putMsg payload payload.length).2)

def accepted (payloads : List Bytes) : List Bytes := payloads.filter fun payload => (F.put payload).1 ≠ -1

def frame (payload : Bytes) : Bytes := (F.put payload).2

def sent (payloads : List Bytes) : Bytes := payloads.flatMap F.frame

def take (bufSize : Nat) (s : Bytes × Bytes) : (Bytes × Bytes) × List (Option (Int × Bytes)) :=
  match F.getNextMsg s.1 s.2 bufSize with
  | none => (s, [none])
  | some (size, buf, stream) => ((stream, buf), [some (asInt size, buf.take (asInt size).toNat)])

def receiver (bufSize : Nat) : Machine Unit (Bytes × Bytes) (Option (Int × Bytes)) := ⟨fun _ => F.take bufSize⟩

def message (payload : Bytes) : Option (Int × Bytes) := some (payload.length, payload)

def ended : Option (Int × Bytes) := some (-1, [])

/-- `GetNextMsg` takes off again what `PutMsg` writes of a payload that fits; at what is left
of a stream behind the last frame it fails and uses it up. -/
structure Law (bufSize : Nat) (fits broken : Bytes → Prop) : Prop where
  takes : ∀ {payload : Bytes} (rest : Bytes) {buf : Bytes}, fits payload → bufSize ≤ buf.length →
    ∃ buf' : Bytes, F.getNextMsg (F.frame payload ++ rest) buf bufSize =
        some ((payload.length : Int), buf', rest) ∧
      buf'.take payload.length = payload ∧ buf'.length = buf.length
  small : ∀ {payload : Bytes}, fits payload → payload.length ≤ INT_MAX
  ends : ∀ {tail buf : Bytes}, broken tail → bufSize ≤ buf.length →
    ∃ buf' : Bytes, F.getNextMsg tail buf bufSize = some (-1, buf', []) ∧ buf'.length = buf.length
  empty : broken []

variable {F}

theorem Law.received {bufSize : Nat} {fits broken : Bytes → Prop} (law : F.Law bufSize fits broken)
    (payloads : List Bytes) (tail : Bytes) {buf : Bytes} (all : ∀ payload ∈ payloads, fits payload)
    (behind : broken tail) (room : bufSize ≤ buf.length) (k : Nat) :
    ((F.receiver bufSize).run (List.replicate (payloads.length + k) ()) (F.sent payloads ++ tail, buf)).2 =
      payloads.map message ++ List.replicate k ended := by
  refine (F.receiver bufSize).run_items (fun payloads s =>
    bufSize ≤ s.2.length ∧ (∀ payload ∈ payloads, fits payload) ∧
      ∃ tail, broken tail ∧ s.1 = F.sent payloads ++ tail) ?_ ?_ ⟨room, all, tail, behind, rfl⟩ k
  · rintro payload rest ⟨stream, buf⟩ ⟨room, all, tail, behind, rfl⟩
    obtain ⟨buf', got, front, size⟩ := law.takes (F.sent rest ++ tail) (all payload (by simp)) room
    have int : asInt payload.length = payload.length :=
      asInt_small (by omega) (by exact_mod_cast law.small (all payload (by simp)))
    refine ⟨(F.sent rest ++ tail, buf'), ?_, by rw [size]; exact room,
      fun p member => all p (List.mem_cons_of_mem _ member), tail, behind, rfl⟩
    simp only [receiver, take, sent, List.flatMap_cons, List.append_assoc] at got ⊢
    simp only [got, int, Int.toNat_natCast, front]
    rfl
  · rintro ⟨stream, buf⟩ ⟨room, -, tail, behind, rfl⟩
    obtain ⟨buf', got, size⟩ := law.ends behind room
    refine ⟨([], buf'), ?_, by rw [size]; exact room, by simp, [], law.empty, rfl⟩
    simp only [receiver, take, got]
    rfl

structure Refuses (F : Framer) (bad : Bytes → Prop) (written : Bytes → Bytes) (payload : Bytes) : Prop where
  refused : F.put payload = (-1, []) ↔ bad payload
  put : ¬ bad payload → F.put payload = ((payload.length : Int), written payload)

section refuses
variable {bad : Bytes → Prop} {written : Bytes → Bytes}

theorem Refuses.result {payload : Bytes} (refuses : F.Refuses bad written payload) :
    (F.put payload).1 = -1 ↔ bad payload := by
  by_cases wrong : bad payload
  · exact iff_of_true (congrArg Prod.fst (refuses.refused.mpr wrong)) wrong
  · have sign : (payload.length : Int) ≠ -1 := by omega
    rw [refuses.put wrong]
    exact iff_of_false sign wrong

theorem Refuses.frame {payload : Bytes} (refuses : F.Refuses bad written payload) (good : ¬ bad payload) :
    F.frame payload = written payload :=
  congrArg Prod.snd (refuses.put good)

theorem sent_accepted {payloads : List Bytes} (all : ∀ payload ∈ payloads, F.Refuses bad written payload) :
    F.sent (F.accepted payloads) = F.sent payloads := by
  induction payloads with
  | nil => rfl
  | cons payload rest ih =>
    have later := ih fun p member => all p (List.mem_cons_of_mem _ member)
    have first := all payload (List.mem_cons_self ..)
    by_cases refused : (F.put payload).1 = -1
    · have nothing : F.frame payload = [] := congrArg Prod.snd (first.refused.mpr (first.result.mp refused))
      have dropped : F.accepted (payload :: rest) = F.accepted rest := by simp [accepted, refused]
      rw [dropped, later, sent, sent, List.flatMap_cons, nothing, List.nil_append]
    · have kept : F.accepted (payload :: rest) = payload :: F.accepted rest := by simp [accepted, refused]
      rw [kept, sent, List.flatMap_cons]
      exact congrArg (F.frame payload ++ ·) later

theorem not_bad_of_accepted {payloads : List Bytes} (all : ∀ payload ∈ payloads, F.Refuses bad written payload)
    {payload : Bytes} (member : payload ∈ F.accepted payloads) : ¬ bad payload := by
  obtain ⟨offered, taken⟩ := List.mem_filter.mp member
  rw [← (all payload offered).result]
  simpa using taken

end refuses

end Framer

/-! ### The delimiter framer -/

def delimFramer : Framer where
  putMsg := putMsg
  getNextMsg stream buf bufSize :=
    match getNextMsg stream buf bufSize with
    | .returned size buf stream => some (size, buf, stream)
    | .exited => none

def Unframed (payload : Bytes) : Prop := payload = [] ∨ DELIM ∈ payload

theorem delimFramer_put {payload : Bytes} (size : payload.length ≤ INT_MAX) :
    delimFramer.Refuses Unframed (· ++ [DELIM]) payload := by
  have int : asInt payload.length = payload.length := asInt_small (by omega) (by exact_mod_cast size)
  by_cases line : DELIM ∈ payload
  · have refused : delimFramer.put payload = (-1, []) := by
      simp [Framer.put, delimFramer, putMsg, line, asInt]
    exact ⟨iff_of_true refused (Or.inr line), fun good => absurd (Or.inr line) good⟩
  by_cases empty : payload = []
  · have refused : delimFramer.put payload = (-1, []) := by
      simp [Framer.put, delimFramer, putMsg, empty, asInt]
    exact ⟨iff_of_true refused (Or.inl empty), fun good => absurd (Or.inl empty) good⟩
  · have put : delimFramer.put payload = ((payload.length : Int), payload ++ [DELIM]) := by
      simp [Framer.put, delimFramer, putMsg, line, empty, int]
    have good : ¬ Unframed payload := not_or.mpr ⟨empty, line⟩
    have written : delimFramer.put payload ≠ (-1, []) := by simp [put]
    exact ⟨iff_of_false written good, fun _ => put⟩

theorem delimFramer_law (bufSize : Nat) (bound : bufSize ≤ INT_MAX) :
    delimFramer.Law bufSize (fun payload => ¬ Unframed payload ∧ payload.length < bufSize) (· = []) where
  takes {payload} rest {buf} fits room := by
    obtain ⟨good, short⟩ := fits
    have clean : DELIM ∉ payload := fun line => good (Or.inr line)
    have line : delimFramer.frame payload ++ rest = payload ++ DELIM :: rest := by
      rw [(delimFramer_put (by omega)).frame good, List.append_assoc]
      rfl
    have got := getNextMsg_line room rest clean short
    have shorter : payload.length ≤ buf.length := by omega
    rw [line]
    exact ⟨received buf payload, by simp [delimFramer, got], take_received buf payload, length_received shorter⟩
  small fits := by omega
  ends {tail buf} nothing room := ⟨buf, by subst nothing; rfl, rfl⟩
  empty := rfl

/-- `PutMsg` refuses exactly the empty messages and those with a delimiter, and `GetNextMsg`
gives back the others. -/
theorem delim_roundtrip {bufSize : Nat} (bound : bufSize ≤ INT_MAX) {payloads : List Bytes}
    (sizes : ∀ payload ∈ payloads, payload.length ≤ INT_MAX) :
    (∀ payload ∈ payloads,
      (delimFramer.put payload = (-1, []) ↔ payload = [] ∨ DELIM ∈ payload) ∧
      (¬ (payload = [] ∨ DELIM ∈ payload) → (delimFramer.put payload).1 = payload.length)) ∧
    ((∀ payload ∈ delimFramer.accepted payloads, payload.length < bufSize) →
      ∀ buf : Bytes, bufSize ≤ buf.length → ∀ k,
        ((delimFramer.receiver bufSize).run (List.replicate ((delimFramer.accepted payloads).length + k) ())
          (delimFramer.sent payloads, buf)).2 =
            (delimFramer.accepted payloads).map Framer.message ++ List.replicate k Framer.ended) := by
  have all : ∀ payload ∈ payloads, delimFramer.Refuses Unframed (· ++ [DELIM]) payload :=
    fun payload member => delimFramer_put (sizes payload member)
  constructor
  · intro payload member
    exact ⟨(all payload member).refused, fun good => congrArg Prod.fst ((all payload member).put good)⟩
  · intro fit buf room k
    have fits : ∀ payload ∈ delimFramer.accepted payloads, ¬ Unframed payload ∧ payload.length < bufSize :=
      fun payload member => ⟨Framer.not_bad_of_accepted all member, fit payload member⟩
    have back := (delimFramer_law bufSize bound).received (delimFramer.accepted payloads) [] fits rfl room k
    rwa [List.append_nil, Framer.sent_accepted all] at back

theorem delim_roundtrip_bytes :
    ((delimFramer.receiver 3).run (List.replicate 3 ()) (delimFramer.sent [[0, 255], [], [10], [7]], [0, 0, 0])).2 =
      [Framer.message [0, 255], Framer.message [7], Framer.ended] :=
  (delim_roundtrip (show 3 ≤ INT_MAX by decide)
    (show ∀ payload ∈ ([[0, 255], [], [10], [7]] : List Bytes), payload.length ≤ INT_MAX by decide)).2 (by decide)
    [0, 0, 0] (by decide) 1

end SocketPrograms.Vote
