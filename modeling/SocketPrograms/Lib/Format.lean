import Mathlib.Algebra.Ring.Int.Defs
import Mathlib.Algebra.Ring.Nat
import SocketPrograms.Lib.CString

/-! Decimal numbers as `printf` writes them and `strtol` reads them, and `snprintf` into a
part of a buffer. `long` and `long long` have 64 bits. -/

namespace SocketPrograms.Lib.Format
open CString

/-- `%llu` -/
def decimal (n : Nat) : Bytes := ascii (Nat.toDigits 10 n)

/-- `%d` -/
def signedDecimal (i : Int) : Bytes := if i < 0 then ascii ['-'] ++ decimal i.natAbs else decimal i.natAbs

def isSpace (b : UInt8) : Bool := b = 32 || 9 ≤ b && b ≤ 13

def isDigit (b : UInt8) : Bool := 48 ≤ b && b ≤ 57

def digitsValue (text : Bytes) : Nat :=
  (text.takeWhile isDigit).foldl (fun n b => 10 * n + (b.toNat - 48)) 0

/-- `strtoll` and `strtol` in base 10: white space, a sign, digits; out of range saturates. -/
def strtoll (text : Bytes) : Int :=
  match text.dropWhile isSpace with
  | 45 :: digits => max (-2 ^ 63) (-(digitsValue digits : Int))
  | 43 :: digits => min (2 ^ 63 - 1) (digitsValue digits : Int)
  | digits => min (2 ^ 63 - 1) (digitsValue digits : Int)

/-- `(int)strtol` -/
def atoi (text : Bytes) : Int32 := Int32.ofInt (strtoll text)

/-- `snprintf` to position `pos` with room for `size` bytes. The count returned is that of
the whole text; `none` when a byte is stored behind the end of the buffer. -/
def snprintf (buf : Bytes) (pos size : Nat) (text : Bytes) : Option (Nat × Bytes) :=
  let stored := if size = 0 then [] else text.take (size - 1) ++ [NUL]
  if pos + stored.length ≤ buf.length then
    some (text.length, buf.take pos ++ stored ++ buf.drop (pos + stored.length))
  else none

theorem decimal_digit {n : Nat} {b : UInt8} (member : b ∈ decimal n) : 48 ≤ b ∧ b ≤ 57 := by
  simp only [decimal, ascii, List.mem_map] at member
  obtain ⟨c, digit, rfl⟩ := member
  have range := Char.isDigit_iff_toNat.mp (Nat.isDigit_of_mem_toDigits (by decide) (by decide) digit)
  have low : '0'.toNat = 48 := rfl
  have high : '9'.toNat = 57 := rfl
  simp only [UInt8.le_iff_toNat_le, Nat.toUInt8, UInt8.toNat_ofNat, UInt8.toNat_ofNat']
  omega

theorem decimal_ne_nil (n : Nat) : decimal n ≠ [] := by
  simp [decimal, ascii]

theorem length_decimal_le {n k : Nat} (positive : 0 < k) (bound : n < 10 ^ k) : (decimal n).length ≤ k := by
  simpa [decimal, ascii] using (Nat.length_toDigits_le_iff (by decide) positive).mpr bound

theorem length_signedDecimal_le {i : Int} (bound : i.natAbs < 10 ^ 10) : (signedDecimal i).length ≤ 11 := by
  have size := length_decimal_le (by decide) bound
  unfold signedDecimal
  split
  · simp only [List.length_append, ascii, List.length_map, List.length_singleton]
    omega
  · omega

/-- A text that fits is stored whole, with a NUL behind it. -/
theorem snprintf_fits (buf text : Bytes) (pos size : Nat) (fits : text.length < size)
    (inside : pos + size ≤ buf.length) :
    snprintf buf pos size text =
      some (text.length, buf.take pos ++ (text ++ [NUL]) ++ buf.drop (pos + (text.length + 1))) := by
  have whole : text.take (size - 1) = text := List.take_of_length_le (by omega)
  simp only [snprintf, if_neg (show size ≠ 0 by omega), whole, List.length_append,
    List.length_singleton]
  rw [if_pos (by omega)]

theorem snprintf_returned {buf text out : Bytes} {pos size rv : Nat}
    (done : snprintf buf pos size text = some (rv, out)) : rv = text.length := by
  simp only [snprintf, Option.ite_none_right_eq_some, Option.some.injEq, Prod.mk.injEq] at done
  exact done.2.1.symm

theorem snprintf_frame {buf text out : Bytes} {pos size rv i : Nat}
    (done : snprintf buf pos size text = some (rv, out)) (behind : pos + min (text.length + 1) size ≤ i) :
    out[i]? = buf[i]? := by
  simp only [snprintf, Option.ite_none_right_eq_some, Option.some.injEq, Prod.mk.injEq] at done
  obtain ⟨inside, -, rfl⟩ := done
  have stored : (if size = 0 then [] else text.take (size - 1) ++ [NUL]).length ≤ min (text.length + 1) size := by
    split_ifs with empty
    · exact Nat.zero_le _
    · simp only [List.length_append, List.length_take, List.length_singleton]
      omega
  have front : (buf.take pos).length = pos := by
    rw [List.length_take]
    omega
  rw [List.getElem?_append_right (by rw [List.length_append]; omega), List.getElem?_drop, List.length_append]
  congr 1
  omega

theorem snprintf_inside (buf text : Bytes) {pos size : Nat} (inside : pos + size ≤ buf.length) :
    ∃ out, snprintf buf pos size text = some (text.length, out) ∧ out.length = buf.length := by
  have stored : (if size = 0 then [] else text.take (size - 1) ++ [NUL]).length ≤ size := by
    split_ifs with empty
    · exact Nat.zero_le size
    · simp only [List.length_append, List.length_take, List.length_singleton]
      omega
  simp only [snprintf]
  rw [if_pos (by omega)]
  refine ⟨_, rfl, ?_⟩
  simp only [List.length_append, List.length_take, List.length_drop]
  omega

end SocketPrograms.Lib.Format
