import Mathlib.Data.Nat.Digits.Lemmas

/-!
# Numerals with leading zeros

Digits in a base, the most significant first, written in another base with as many leading zeros.
`recode_recode`: writing them back returns the digits, leading zeros included.
-/

namespace Hikyo.Lib

open List

variable {digits : List Nat}

def numeral (base n : Nat) : List Nat := (Nat.digits base n).reverse

def value (base : Nat) (digits : List Nat) : Nat := digits.foldl (fun n d => n * base + d) 0

def recode (base base' : Nat) (digits : List Nat) : List Nat :=
  digits.takeWhile (· == 0) ++ numeral base' (value base digits)

section Numeral
variable {base base' : Nat}

theorem value_eq (digits : List Nat) : value base digits = Nat.ofDigits base digits.reverse := by
  rw [Nat.ofDigits_eq_foldr, foldr_reverse, value]
  congr
  funext n d
  rw [Nat.cast_id, Nat.add_comm, Nat.mul_comm]

theorem value_numeral (n : Nat) : value base (numeral base n) = n := by
  rw [value_eq, numeral, reverse_reverse, Nat.ofDigits_digits]

theorem value_zeros_append {zeros : List Nat} (isZero : ∀ d ∈ zeros, d = 0) (rest : List Nat) :
    value base (zeros ++ rest) = value base rest := by
  rw [value, eq_replicate_of_mem isZero, foldl_append]
  induction zeros.length with
  | zero => rfl
  | succ n ih => simpa [replicate_succ] using ih

theorem takeWhile_numeral (n : Nat) : (numeral base n).takeWhile (· == 0) = [] := by
  cases isNumeral : numeral base n with
  | nil => rfl
  | cons d _ =>
    have nonzero : n ≠ 0 := by
      rintro rfl
      simp [numeral] at isNumeral
    have leading := Nat.getLast_digit_ne_zero base nonzero
    rw [← head_reverse (by simpa using Nat.digits_ne_nil_iff_ne_zero.mpr nonzero)] at leading
    simp only [numeral] at isNumeral
    simp only [isNumeral, head_cons] at leading
    simp [leading]

theorem numeral_value (large : 1 < base) (small : ∀ d ∈ digits, d < base)
    (leading : ∀ nonempty, digits.head nonempty ≠ 0) :
    numeral base (value base digits) = digits := by
  rw [numeral, value_eq, Nat.digits_ofDigits base large _ (by simpa using small), reverse_reverse]
  intro nonempty
  rw [getLast_reverse]
  exact leading _

theorem recode_recode (large : 1 < base) (small : ∀ d ∈ digits, d < base) :
    recode base' base (recode base base' digits) = digits := by
  have isZero : ∀ d ∈ digits.takeWhile (· == 0), d = 0 := fun d mem => by
    simpa using all_eq_true.mp all_takeWhile d mem
  have leading : ∀ nonempty, (digits.dropWhile (· == 0)).head nonempty ≠ 0 := fun nonempty => by
    simpa using head_dropWhile_not (· == 0) nonempty
  have kept : value base digits = value base (digits.dropWhile (· == 0)) := by
    rw [← value_zeros_append isZero (digits.dropWhile _), takeWhile_append_dropWhile]
  rw [recode, recode, takeWhile_append_of_pos fun d mem => by simpa using isZero d mem,
    takeWhile_numeral, append_nil,
    value_zeros_append isZero, value_numeral, kept,
    numeral_value large (fun d mem => small d ?_) leading,
    takeWhile_append_dropWhile]
  exact (dropWhile_sublist _).subset mem

theorem recode_lt (large : 1 < base') {d : Nat} (mem : d ∈ recode base base' digits) :
    d < base' := by
  rcases mem_append.mp mem with zero | mem
  · have isZero : d = 0 := by simpa using all_eq_true.mp all_takeWhile d zero
    omega
  · exact Nat.digits_lt_base large (mem_reverse.mp mem)

end Numeral

end Hikyo.Lib
