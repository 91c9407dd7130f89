import Mathlib.Data.List.TakeWhile
import SocketPrograms.Lib.CString

/-! The words of a C string, and readers that see of a buffer only the words ahead of them.
A buffer with a NUL in it is never read beyond its end. -/

namespace SocketPrograms.Lib.CString

def cString (buf : Bytes) : Bytes := buf.takeWhile (· ≠ NUL)

def wordsFrom (delim : UInt8) : Bytes → Bytes → List Bytes
  | tok, [] => if tok = [] then [] else [tok]
  | tok, b :: rest =>
      if b = delim then
        if tok = [] then wordsFrom delim [] rest else tok :: wordsFrom delim [] rest
      else wordsFrom delim (tok ++ [b]) rest

def words (delim : UInt8) (text : Bytes) : List Bytes := wordsFrom delim [] text

/-- Wherever a buffer has these words ahead, the reader returns `a` and stays inside. -/
def Reads (delim : UInt8) {α : Type} (p : Reader α) (tokens : List Bytes) (a : α) : Prop :=
  ∀ s, NUL ∈ s.rest → words delim (cString s.rest) = tokens → ∃ s', p s = some (a, s') ∧ NUL ∈ s'.rest

section words
variable (delim : UInt8)

theorem cString_of_clean {text : Bytes} (noNul : NUL ∉ text) : cString text = text := by
  rw [cString, List.takeWhile_eq_self_iff]
  intro b member
  have other : b ≠ NUL := fun same => noNul (same ▸ member)
  simpa using other

theorem cString_append_nul {text : Bytes} (noNul : NUL ∉ text) (behind : Bytes) :
    cString (text ++ NUL :: behind) = text := by
  have all := List.takeWhile_eq_self_iff.mp (cString_of_clean noNul)
  rw [cString, List.takeWhile_append_of_pos all]
  simp

theorem cString_append {text : Bytes} (nul : NUL ∈ text) (behind : Bytes) :
    cString (text ++ behind) = cString text := by
  obtain ⟨front, rest, rfl, clean⟩ := List.eq_append_cons_of_mem nul
  rw [List.append_assoc, List.cons_append, cString_append_nul clean, cString_append_nul clean]

theorem cString_closed (buf : Bytes) : cString (buf ++ [NUL]) = cString buf := by
  by_cases nul : NUL ∈ buf
  · exact cString_append nul [NUL]
  · rw [cString_append_nul nul, cString_of_clean nul]

theorem words_skip (text : Bytes) : words delim (delim :: text) = words delim text := by
  simp [words, wordsFrom]

theorem wordsFrom_word {word : Bytes} (tok text : Bytes) (clean : delim ∉ word) (nonempty : tok ++ word ≠ []) :
    wordsFrom delim tok (word ++ delim :: text) = (tok ++ word) :: words delim text := by
  induction word generalizing tok with
  | nil =>
    rw [List.append_nil] at nonempty
    simp [wordsFrom, nonempty, words]
  | cons b word ih =>
    simp only [List.mem_cons, not_or] at clean
    have onward := ih (tok ++ [b]) clean.2 (by simp)
    rw [List.cons_append, wordsFrom, if_neg (Ne.symm clean.1), onward]
    simp

theorem words_word {word : Bytes} (text : Bytes) (clean : delim ∉ word) (nonempty : word ≠ []) :
    words delim (word ++ delim :: text) = word :: words delim text :=
  wordsFrom_word delim [] text clean nonempty

theorem wordsFrom_last {word : Bytes} (tok : Bytes) (clean : delim ∉ word) (nonempty : tok ++ word ≠ []) :
    wordsFrom delim tok word = [tok ++ word] := by
  induction word generalizing tok with
  | nil =>
    rw [List.append_nil] at nonempty ⊢
    simp [wordsFrom, nonempty]
  | cons b word ih =>
    simp only [List.mem_cons, not_or] at clean
    have onward := ih (tok ++ [b]) clean.2 (by simp)
    rw [wordsFrom, if_neg (Ne.symm clean.1), onward]
    simp

theorem words_last {word : Bytes} (clean : delim ∉ word) (nonempty : word ≠ []) : words delim word = [word] :=
  wordsFrom_last delim [] clean nonempty

/-- Behind a text come the words that are closed in it, and its last word goes on in what follows. -/
theorem wordsFrom_append (tok text : Bytes) :
    ∃ last, ∀ more, wordsFrom delim tok (text ++ more) = closedFrom delim tok text ++ wordsFrom delim last more := by
  induction text generalizing tok with
  | nil => exact ⟨tok, fun more => rfl⟩
  | cons b text ih =>
    simp only [List.cons_append, wordsFrom, closedFrom]
    split_ifs with close empty
    · exact ih []
    · obtain ⟨last, onward⟩ := ih []
      exact ⟨last, fun more => congrArg (tok :: ·) (onward more)⟩
    · exact ih (tok ++ [b])

theorem wordsFrom_begun {tok : Bytes} (begun : tok ≠ []) (more : Bytes) :
    ∃ others, wordsFrom delim tok more = (tok ++ more.takeWhile (· ≠ delim)) :: others := by
  induction more generalizing tok with
  | nil => exact ⟨[], by simp [wordsFrom, begun]⟩
  | cons b more ih =>
    rw [wordsFrom]
    split_ifs with close
    · exact ⟨words delim more, by simp [close, words]⟩
    · have longer : tok ++ [b] ≠ [] := by simp
      obtain ⟨others, onward⟩ := ih longer
      exact ⟨others, by simp [onward, close]⟩

theorem strtokFrom_words {rest : Bytes} (tok before : Bytes) (nul : NUL ∈ rest) :
    ∃ s, strtokFrom delim tok before rest = some ((wordsFrom delim tok (cString rest)).head?, s) ∧
      NUL ∈ s.rest ∧ words delim (cString s.rest) = (wordsFrom delim tok (cString rest)).tail := by
  induction rest generalizing tok before with
  | nil => simp at nul
  | cons b rest ih =>
    rw [strtokFrom]
    by_cases here : b = NUL
    · have nothing : cString (b :: rest) = [] := by simp [cString, here]
      rw [if_pos here, nothing]
      refine ⟨⟨before, b :: rest⟩, ?_, by simp [here], ?_⟩
      all_goals by_cases empty : tok = [] <;> simp [nothing, words, wordsFrom, empty]
    have later : NUL ∈ rest := by simpa [Ne.symm here] using nul
    have ahead : cString (b :: rest) = b :: cString rest := by simp [cString, here]
    rw [if_neg here, ahead, wordsFrom]
    split_ifs with close empty
    · exact ih [] _ later
    · exact ⟨_, rfl, later, rfl⟩
    · exact ih _ _ later

theorem strtok_words {s : Scan} (nul : NUL ∈ s.rest) :
    ∃ s', strtok delim s = some ((words delim (cString s.rest)).head?, s') ∧ NUL ∈ s'.rest ∧
      words delim (cString s'.rest) = (words delim (cString s.rest)).tail :=
  strtokFrom_words delim [] s.before nul

end words

namespace Reads
variable {delim : UInt8} {α β : Type} {tokens : List Bytes}

theorem pure (a : α) : Reads delim (Pure.pure a : Reader α) tokens a := by
  intro s nul here
  exact ⟨s, rfl, nul⟩

theorem strtok_bind {f : Option Bytes → Reader β} {b : β}
    (next : Reads delim (f tokens.head?) tokens.tail b) : Reads delim (strtok delim >>= f) tokens b := by
  intro s nul here
  obtain ⟨s', taken, later, left⟩ := strtok_words delim nul
  rw [here] at taken left
  rw [Reader.bind_eq, taken]
  exact next s' later left

end Reads
end SocketPrograms.Lib.CString
