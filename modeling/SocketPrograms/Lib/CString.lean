import Mathlib.Data.List.Basic
import Mathlib.Tactic.Common

/-! C strings in a byte buffer: a scan that moves through the buffer as `strtok` does, and
what such a scan can say about the bytes behind its position. A read behind the last byte
of the buffer is `none`. -/

namespace SocketPrograms.Lib.CString

abbrev Bytes := List UInt8

def ascii (text : List Char) : Bytes := text.map fun c => c.toNat.toUInt8

def NUL : UInt8 := 0

/-- A position in a buffer: the bytes passed, as they stand now, and the bytes ahead. -/
structure Scan where
  before : Bytes
  rest : Bytes
deriving DecidableEq, Repr

def Scan.buffer (s : Scan) : Bytes := s.before ++ s.rest

/-- A computation that moves through a buffer; `none` when it reads behind the end. -/
abbrev Reader := StateT Scan Option

/-- The loop of `strtok` with the part of the token read so far. Delimiters in front of the
token are passed over; the one behind it is overwritten by NUL. -/
def strtokFrom (delim : UInt8) : Bytes → Bytes → Bytes → Option (Option Bytes × Scan)
  | _, _, [] => none
  | tok, before, b :: rest =>
      if b = NUL then some (if tok = [] then none else some tok, ⟨before, b :: rest⟩)
      else if b = delim then
        if tok = [] then strtokFrom delim [] (before ++ [b]) rest
        else some (some tok, ⟨before ++ [NUL], rest⟩)
      else strtokFrom delim (tok ++ [b]) (before ++ [b]) rest

/-- `strtok` with one delimiter, on from where the last call left off; the inner `none` is
the null pointer. -/
def strtok (delim : UInt8) : Reader (Option Bytes) := fun s => strtokFrom delim [] s.before s.rest

def closedFrom (delim : UInt8) : Bytes → Bytes → List Bytes
  | _, [] => []
  | tok, b :: rest =>
      if b = delim then
        if tok = [] then closedFrom delim [] rest else tok :: closedFrom delim [] rest
      else closedFrom delim (tok ++ [b]) rest

def closedTokens (delim : UInt8) (text : Bytes) : List Bytes := closedFrom delim [] text

structure Local (delim : UInt8) {α : Type} (p : Reader α) : Prop where
  grows : ∀ {before rest a before' rest'} (more : Bytes), p ⟨before, rest⟩ = some (a, ⟨before', rest'⟩) →
    p ⟨before, rest ++ more⟩ = some (a, ⟨before', rest' ++ more⟩)
  starves : ∀ {before rest} (more : Bytes), NUL ∉ more → delim ∉ more →
    p ⟨before, rest⟩ = none → p ⟨before, rest ++ more⟩ = none
  halts : ∀ before {rest}, NUL ∈ rest → ∃ a s, p ⟨before, rest⟩ = some (a, s) ∧ NUL ∈ s.rest
  keeps : ∀ {s a s'}, p s = some (a, s') → s'.buffer.length = s.buffer.length

section strtok
variable (delim : UInt8)

theorem strtokFrom_grows {tok before rest : Bytes} {got : Option Bytes} {s : Scan} (more : Bytes)
    (ends : strtokFrom delim tok before rest = some (got, s)) :
    strtokFrom delim tok before (rest ++ more) = some (got, ⟨s.before, s.rest ++ more⟩) := by
  induction rest generalizing tok before with
  | nil => simp [strtokFrom] at ends
  | cons b rest ih =>
    simp only [strtokFrom, List.cons_append] at ends ⊢
    split_ifs at ends ⊢ with nul close empty
    all_goals first
      | exact ih ends
      | (obtain ⟨rfl, rfl⟩ := by simpa using ends
         rfl)

theorem strtokFrom_starves {tok before rest : Bytes} (more : Bytes) (noNul : NUL ∉ more)
    (noDelim : delim ∉ more) (starved : strtokFrom delim tok before rest = none) :
    strtokFrom delim tok before (rest ++ more) = none := by
  induction rest generalizing tok before with
  | nil =>
    clear starved
    induction more generalizing tok before with
    | nil => rfl
    | cons b more ih =>
      simp only [List.mem_cons, not_or] at noNul noDelim
      have step : strtokFrom delim (tok ++ [b]) (before ++ [b]) more = none := ih noNul.2 noDelim.2
      simpa [strtokFrom, Ne.symm noNul.1, Ne.symm noDelim.1] using step
  | cons b rest ih =>
    simp only [strtokFrom, List.cons_append] at starved ⊢
    split_ifs at starved ⊢ <;> exact ih starved

theorem strtokFrom_halts {tok before rest : Bytes} (nul : NUL ∈ rest) :
    ∃ got s, strtokFrom delim tok before rest = some (got, s) ∧ NUL ∈ s.rest := by
  induction rest generalizing tok before with
  | nil => simp at nul
  | cons b rest ih =>
    rw [strtokFrom]
    by_cases here : b = NUL
    · rw [if_pos here]
      exact ⟨_, _, rfl, by simp [here]⟩
    have later : NUL ∈ rest := by simpa [Ne.symm here] using nul
    rw [if_neg here]
    split_ifs with close empty
    · exact ih later
    · exact ⟨_, _, rfl, later⟩
    · exact ih later

theorem strtokFrom_keeps {tok before rest : Bytes} {got : Option Bytes} {s : Scan}
    (ends : strtokFrom delim tok before rest = some (got, s)) :
    s.buffer.length = before.length + rest.length := by
  induction rest generalizing tok before with
  | nil => simp [strtokFrom] at ends
  | cons b rest ih =>
    simp only [strtokFrom] at ends
    split_ifs at ends
    all_goals first
      | (have size := ih ends
         simp only [List.length_append, List.length_cons, List.length_nil] at size ⊢
         omega)
      | (obtain ⟨-, rfl⟩ := by simpa using ends
         simp [Scan.buffer]
         try omega)

theorem strtok_local : Local delim (strtok delim) where
  grows more ends := strtokFrom_grows delim more ends
  starves more noNul noDelim starved := strtokFrom_starves delim more noNul noDelim starved
  halts _ _ nul := strtokFrom_halts delim nul
  keeps ends := by simpa [Scan.buffer] using strtokFrom_keeps delim ends

theorem strtokFrom_word {word : Bytes} (tok before after : Bytes) (noNul : NUL ∉ word) (noDelim : delim ∉ word)
    (nonempty : tok ++ word ≠ []) :
    strtokFrom delim tok before (word ++ NUL :: after) =
      some (some (tok ++ word), ⟨before ++ word, NUL :: after⟩) := by
  induction word generalizing tok before with
  | nil =>
    rw [List.append_nil] at nonempty
    simp [strtokFrom, nonempty]
  | cons b word ih =>
    simp only [List.mem_cons, not_or] at noNul noDelim
    have onward := ih (tok ++ [b]) (before ++ [b]) noNul.2 noDelim.2 (by simp)
    rw [List.cons_append, strtokFrom, if_neg (Ne.symm noNul.1), if_neg (Ne.symm noDelim.1)]
    simpa using onward

theorem strtokFrom_delimited {word : Bytes} (tok before after : Bytes) (noNul : NUL ∉ word) (noDelim : delim ∉ word)
    (solid : delim ≠ NUL) (nonempty : tok ++ word ≠ []) :
    strtokFrom delim tok before (word ++ delim :: after) =
      some (some (tok ++ word), ⟨before ++ word ++ [NUL], after⟩) := by
  induction word generalizing tok before with
  | nil =>
    rw [List.append_nil] at nonempty
    simp [strtokFrom, solid, nonempty]
  | cons b word ih =>
    simp only [List.mem_cons, not_or] at noNul noDelim
    have onward := ih (tok ++ [b]) (before ++ [b]) noNul.2 noDelim.2 (by simp)
    rw [List.cons_append, strtokFrom, if_neg (Ne.symm noNul.1), if_neg (Ne.symm noDelim.1)]
    simpa using onward

/-- Without a NUL ahead, `strtok` returns the first token that is closed, and reads behind
the end when there is none. -/
theorem strtokFrom_closed {rest : Bytes} (tok before : Bytes) (noNul : NUL ∉ rest) :
    match closedFrom delim tok rest with
    | [] => strtokFrom delim tok before rest = none
    | t :: ts => ∃ s, strtokFrom delim tok before rest = some (some t, s) ∧ NUL ∉ s.rest ∧
        closedTokens delim s.rest = ts := by
  induction rest generalizing tok before with
  | nil => rfl
  | cons b rest ih =>
    simp only [List.mem_cons, not_or] at noNul
    simp only [strtokFrom, closedFrom, if_neg (Ne.symm noNul.1)]
    split_ifs with close empty
    · exact ih [] _ noNul.2
    · exact ⟨_, rfl, noNul.2, rfl⟩
    · exact ih _ _ noNul.2

theorem strtok_closed {s : Scan} (noNul : NUL ∉ s.rest) :
    (closedTokens delim s.rest = [] ∧ strtok delim s = none) ∨
      ∃ t s', closedTokens delim s.rest = t :: closedTokens delim s'.rest ∧
        strtok delim s = some (some t, s') ∧ NUL ∉ s'.rest := by
  have first := strtokFrom_closed delim [] s.before noNul
  unfold closedTokens strtok
  split at first
  next empty => exact Or.inl ⟨empty, first⟩
  next t ts closed =>
    obtain ⟨s', ends, later, same⟩ := first
    exact Or.inr ⟨t, s', by rw [closed, ← same]; rfl, ends, later⟩

example : strtok 32 ⟨[], [32, 86, 111, 32, 118]⟩ = some (some [86, 111], ⟨[32, 86, 111, 0], [118]⟩) := by decide

end strtok

theorem Reader.pure_eq {α : Type} (a : α) (s : Scan) : (pure a : Reader α) s = some (a, s) := rfl

theorem Reader.bind_eq {α β : Type} (p : Reader α) (f : α → Reader β) (s : Scan) :
    (p >>= f) s = match p s with
      | none => none
      | some (a, s') => f a s' := by
  simp only [Bind.bind, StateT.bind, Option.bind]
  cases p s <;> rfl

namespace Local
variable {delim : UInt8} {α β : Type}

theorem pure (a : α) : Local delim (Pure.pure a : Reader α) where
  grows more ends := by
    obtain ⟨rfl, rfl, rfl⟩ := by simpa [Reader.pure_eq] using ends
    rfl
  starves _ _ _ starved := by simp [Reader.pure_eq] at starved
  halts _ _ nul := ⟨a, _, rfl, nul⟩
  keeps ends := by
    obtain ⟨-, rfl⟩ := by simpa [Reader.pure_eq] using ends
    rfl

theorem bind {p : Reader α} {f : α → Reader β} (first : Local delim p) (next : ∀ a, Local delim (f a)) :
    Local delim (p >>= f) where
  grows {before rest a before' rest'} more ends := by
    rw [Reader.bind_eq] at ends ⊢
    split at ends
    next starved => cases ends
    next b s here =>
      rw [first.grows more here]
      exact (next b).grows more ends
  starves {before rest} more noNul noDelim starved := by
    rw [Reader.bind_eq] at starved ⊢
    split at starved
    next stuck => rw [first.starves more noNul noDelim stuck]
    next b s here =>
      rw [first.grows more here]
      exact (next b).starves more noNul noDelim starved
  halts before rest nul := by
    obtain ⟨b, s, here, later⟩ := first.halts before nul
    rw [Reader.bind_eq, here]
    exact (next b).halts _ later
  keeps {s a s'} ends := by
    rw [Reader.bind_eq] at ends
    split at ends
    next starved => cases ends
    next b mid here => exact ((next b).keeps ends).trans (first.keeps here)

theorem ite {c : Prop} [Decidable c] {p q : Reader α} (yes : Local delim p) (no : Local delim q) :
    Local delim (if c then p else q) := by
  split
  · exact yes
  · exact no

end Local

def Ensures {α : Type} (p : Reader α) (post : α → Prop) : Prop := ∀ s a s', p s = some (a, s') → post a

namespace Ensures
variable {α β : Type} {post : β → Prop}

theorem pure {b : β} (here : post b) : Ensures (Pure.pure b) post := by
  intro s a s' ends
  obtain ⟨rfl, -⟩ := by simpa [Reader.pure_eq] using ends
  exact here

theorem bind {p : Reader α} {f : α → Reader β} (next : ∀ a, Ensures (f a) post) : Ensures (p >>= f) post := by
  intro s b s' ends
  rw [Reader.bind_eq] at ends
  split at ends
  next starved => cases ends
  next a mid here => exact next a _ _ _ ends

theorem ite {c : Prop} [Decidable c] {p q : Reader β} (yes : Ensures p post) (no : Ensures q post) :
    Ensures (if c then p else q) post := by
  split
  · exact yes
  · exact no

end Ensures
end SocketPrograms.Lib.CString
