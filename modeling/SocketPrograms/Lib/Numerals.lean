import Mathlib.Data.List.Induction
import Mathlib.Data.List.TakeWhile
import Mathlib.Tactic.Ring
import SocketPrograms.Lib.Format

/-! Texts that are decimal integers, and what `strtoll` makes of them. -/

namespace SocketPrograms.Lib.Format
open CString

/-- A text that is a decimal integer and nothing else: digits behind a sign or none. -/
inductive Numeral : Bytes → Int → Prop where
  | plain {digits : Bytes} (nonempty : digits ≠ []) (all : ∀ b ∈ digits, isDigit b = true) :
      Numeral digits (digitsValue digits)
  | plus {digits : Bytes} (nonempty : digits ≠ []) (all : ∀ b ∈ digits, isDigit b = true) :
      Numeral (43 :: digits) (digitsValue digits)
  | minus {digits : Bytes} (nonempty : digits ≠ []) (all : ∀ b ∈ digits, isDigit b = true) :
      Numeral (45 :: digits) (-(digitsValue digits : Int))

theorem isDigit_range {b : UInt8} (digit : isDigit b = true) : 48 ≤ b.toNat ∧ b.toNat ≤ 57 := by
  have range : (48 : UInt8) ≤ b ∧ b ≤ 57 := by simpa [isDigit] using digit
  simpa [UInt8.le_iff_toNat_le] using range

theorem Numeral.range {text : Bytes} {i : Int} (num : Numeral text i) {b : UInt8} (member : b ∈ text) :
    43 ≤ b.toNat ∧ b.toNat ≤ 57 := by
  have inner {digits : Bytes} (all : ∀ b ∈ digits, isDigit b = true) (inside : b ∈ digits) :
      43 ≤ b.toNat ∧ b.toNat ≤ 57 := by
    have range := isDigit_range (all b inside)
    omega
  cases num with
  | plain nonempty all => exact inner all member
  | plus nonempty all | minus nonempty all =>
    rcases List.mem_cons.mp member with rfl | inside
    · decide
    · exact inner all inside

theorem Numeral.ne_nil {text : Bytes} {i : Int} (num : Numeral text i) : text ≠ [] := by
  cases num with
  | plain nonempty all => exact nonempty
  | plus nonempty all | minus nonempty all => simp

theorem Numeral.not_mem {text : Bytes} {i : Int} (num : Numeral text i) {b : UInt8}
    (foreign : b.toNat < 43 ∨ 57 < b.toNat) : b ∉ text := by
  intro member
  have range := num.range member
  omega

theorem dropWhile_isSpace {b : UInt8} (solid : isSpace b = false) (rest : Bytes) :
    (b :: rest).dropWhile isSpace = b :: rest := by
  rw [List.dropWhile_cons_of_neg (by simp [solid])]

/-- `strtoll` of an integer is the integer, as far as 64 bits reach. -/
theorem strtoll_numeral {text : Bytes} {i : Int} (num : Numeral text i) :
    strtoll text = max (-2 ^ 63) (min (2 ^ 63 - 1) i) := by
  cases num with
  | @plain digits nonempty all =>
    obtain ⟨b, rest, rfl⟩ := List.exists_cons_of_ne_nil nonempty
    have range := isDigit_range (all b (List.mem_cons_self ..))
    have solid : isSpace b = false := by
      simp only [isSpace, Bool.or_eq_false_iff, decide_eq_false_iff_not, Bool.and_eq_false_iff,
        UInt8.le_iff_toNat_le, ← UInt8.toNat_inj]
      refine ⟨?_, Or.inr ?_⟩
      all_goals
        simp only [UInt8.toNat_ofNat]
        omega
    have unsigned : b ≠ 45 ∧ b ≠ 43 := by
      refine ⟨?_, ?_⟩
      all_goals
        rintro rfl
        simp at range
    rw [strtoll, dropWhile_isSpace solid]
    split
    next digits sign => exact absurd (List.cons.inj sign).1 unsigned.1
    next digits sign => exact absurd (List.cons.inj sign).1 unsigned.2
    next => omega
  | @plus digits nonempty all =>
    have value : strtoll (43 :: digits) = min (2 ^ 63 - 1) (digitsValue digits : Int) := by
      rw [strtoll, dropWhile_isSpace (by decide)]
      rfl
    omega
  | @minus digits nonempty all =>
    have value : strtoll (45 :: digits) = max (-2 ^ 63) (-(digitsValue digits : Int)) := by
      rw [strtoll, dropWhile_isSpace (by decide)]
      rfl
    omega

theorem strtoll_exact {text : Bytes} {i : Int} (num : Numeral text i) (low : -2 ^ 63 ≤ i) (high : i < 2 ^ 63) :
    strtoll text = i := by
  rw [strtoll_numeral num]
  omega

theorem strtoll_range (text : Bytes) : -2 ^ 63 ≤ strtoll text ∧ strtoll text < 2 ^ 63 := by
  unfold strtoll
  split <;> omega

theorem ofInt_strtoll_inj {text text' : Bytes} :
    UInt64.ofInt (strtoll text) = UInt64.ofInt (strtoll text') ↔ strtoll text = strtoll text' := by
  have range := strtoll_range text
  have range' := strtoll_range text'
  constructor
  · intro same
    have bits := congrArg UInt64.toNat same
    simp only [UInt64.ofInt, UInt64.toNat_ofNat'] at bits
    omega
  · exact congrArg UInt64.ofInt

theorem atoi_exact {text : Bytes} {i : Int32} (num : Numeral text i.toInt) : atoi text = i := by
  have low := i.le_toInt
  have high := i.toInt_lt
  rw [atoi, strtoll_exact num (by omega) (by omega), Int32.ofInt_toInt]

theorem decimal_isDigit (n : Nat) : ∀ b ∈ decimal n, isDigit b = true := by
  intro b member
  simpa [isDigit] using decimal_digit member

theorem digitsValue_ascii {chars : List Char} (digits : ∀ c ∈ chars, c.isDigit = true) :
    digitsValue (ascii chars) = Nat.ofDigitChars 10 chars 0 := by
  have byte : ∀ c ∈ chars, c.toNat.toUInt8.toNat = c.toNat ∧ isDigit c.toNat.toUInt8 = true := by
    intro c member
    have range := Char.isDigit_iff_toNat.mp (digits c member)
    have low : '0'.toNat = 48 := rfl
    have high : '9'.toNat = 57 := rfl
    have small : c.toNat.toUInt8.toNat = c.toNat := by
      rw [Nat.toUInt8, UInt8.toNat_ofNat']
      omega
    refine ⟨small, ?_⟩
    simp only [isDigit, Bool.and_eq_true, decide_eq_true_eq, UInt8.le_iff_toNat_le, small, UInt8.toNat_ofNat]
    omega
  have whole : (ascii chars).takeWhile isDigit = ascii chars := by
    rw [List.takeWhile_eq_self_iff]
    intro b member
    obtain ⟨c, inside, rfl⟩ := List.mem_map.mp member
    exact (byte c inside).2
  rw [digitsValue, whole, ascii, List.foldl_map, Nat.ofDigitChars_eq_foldl]
  apply List.foldl_ext
  intro n c member
  rw [(byte c member).1]
  rfl

theorem digitsValue_decimal (n : Nat) : digitsValue (decimal n) = n := by
  rw [decimal, digitsValue_ascii fun c => Nat.isDigit_of_mem_toDigits (by decide) (by decide),
    Nat.ofDigitChars_ten_toDigits]

theorem decimal_numeral (n : Nat) : Numeral (decimal n) n := by
  have plain := Numeral.plain (decimal_ne_nil n) (decimal_isDigit n)
  rwa [digitsValue_decimal] at plain

theorem signedDecimal_numeral (i : Int) : Numeral (signedDecimal i) i := by
  unfold signedDecimal
  split_ifs with negative
  · have minus := Numeral.minus (decimal_ne_nil i.natAbs) (decimal_isDigit i.natAbs)
    have value : -((i.natAbs : Nat) : Int) = i := by omega
    rwa [digitsValue_decimal, value] at minus
  · have plain := decimal_numeral i.natAbs
    have value : ((i.natAbs : Nat) : Int) = i := by omega
    rwa [value] at plain

/-! ### Digits in front of digits -/

theorem digitsValue_digits {digits : Bytes} (all : ∀ b ∈ digits, isDigit b = true) :
    digitsValue digits = digits.foldl (fun n b => 10 * n + (b.toNat - 48)) 0 := by
  rw [digitsValue, List.takeWhile_eq_self_iff.mpr all]

theorem digitsValue_concat {digits : Bytes} {b : UInt8} (all : ∀ d ∈ digits ++ [b], isDigit d = true) :
    digitsValue (digits ++ [b]) = 10 * digitsValue digits + (b.toNat - 48) := by
  have front : ∀ d ∈ digits, isDigit d = true := fun d member => all d (List.mem_append_left _ member)
  rw [digitsValue_digits all, digitsValue_digits front, List.foldl_append, List.foldl_cons, List.foldl_nil]

theorem digitsValue_append {digits more : Bytes} (all : ∀ b ∈ digits ++ more, isDigit b = true) :
    digitsValue (digits ++ more) = digitsValue digits * 10 ^ more.length + digitsValue more := by
  induction more using List.reverseRecOn with
  | nil => simp [digitsValue]
  | append_singleton more b ih =>
    rw [← List.append_assoc] at all
    have front : ∀ d ∈ digits ++ more, isDigit d = true := fun d member => all d (List.mem_append_left _ member)
    have rear : ∀ d ∈ more ++ [b], isDigit d = true := fun d member =>
      all d (by rw [List.append_assoc]; exact List.mem_append_right _ member)
    rw [← List.append_assoc, digitsValue_concat all, ih front, digitsValue_concat rear, List.length_append,
      List.length_singleton, Nat.pow_succ]
    ring

theorem digitsValue_lt {digits : Bytes} (all : ∀ b ∈ digits, isDigit b = true) :
    digitsValue digits < 10 ^ digits.length := by
  induction digits using List.reverseRecOn with
  | nil => decide
  | append_singleton digits b ih =>
    have front := ih fun d member => all d (List.mem_append_left _ member)
    have digit := isDigit_range (all b (by simp))
    rw [digitsValue_concat all, List.length_append, List.length_singleton, Nat.pow_succ]
    omega

theorem digitsValue_eq_zero_iff {digits : Bytes} (all : ∀ b ∈ digits, isDigit b = true) :
    digitsValue digits = 0 ↔ ∀ b ∈ digits, b = 48 := by
  induction digits using List.reverseRecOn with
  | nil => simp [digitsValue]
  | append_singleton digits b ih =>
    have front := ih fun d member => all d (List.mem_append_left _ member)
    have digit := isDigit_range (all b (by simp))
    have last : b = 48 ↔ b.toNat = 48 := UInt8.toNat_inj.symm
    rw [digitsValue_concat all, List.forall_mem_append, List.forall_mem_singleton, ← front, last]
    omega

/-- More digits behind a number leave its value when there are none, or zeros behind a zero. -/
theorem digitsValue_append_eq_iff {digits more : Bytes} (all : ∀ b ∈ digits ++ more, isDigit b = true) :
    digitsValue (digits ++ more) = digitsValue digits ↔
      more = [] ∨ digitsValue digits = 0 ∧ ∀ b ∈ more, b = 48 := by
  have rear : ∀ b ∈ more, isDigit b = true := fun b member => all b (List.mem_append_right _ member)
  rw [digitsValue_append all, ← digitsValue_eq_zero_iff rear]
  cases more with
  | nil => simp [digitsValue]
  | cons b more =>
    have large : 10 ≤ 10 ^ (b :: more).length := Nat.le_self_pow (by simp) 10
    constructor
    · intro same
      have zero : digitsValue digits = 0 := by
        by_contra positive
        have more_than := Nat.mul_le_mul_left (digitsValue digits) large
        omega
      rw [zero] at same
      exact Or.inr ⟨zero, by omega⟩
    · intro values
      rcases values with none | ⟨zero, none⟩
      · cases none
      · rw [zero, none, Nat.zero_mul]

example : strtoll (ascii ['4', 'x']) = 4 ∧ strtoll (ascii ['x']) = 0 := by decide

end SocketPrograms.Lib.Format
