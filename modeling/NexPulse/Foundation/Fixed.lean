import NexPulse.Foundation.Binary64
import NexPulse.Foundation.Numeral
import Mathlib.Algebra.Order.Field.Rat
import Mathlib.Algebra.Order.Field.Basic
import Mathlib.Tactic.FieldSimp
import Mathlib.Tactic.Linarith
import Mathlib.Tactic.LinearCombination
import Mathlib.Tactic.Positivity

/-!
# Decimals with a fixed number of places

An integer is written with its digits, a rational with a given number of places:
it is rounded to the nearest multiple of the last one, with ties to the even
multiple.  What is read is off by half a unit of the last place at most.
-/

namespace NexPulse.Foundation.Numeral

open NexPulse.Foundation.Binary64

def integer (n : Int) : Decimal := ⟨n < 0, n.natAbs, 0⟩

def decimalVerb (n : Int) : Text := write false (integer n)

def rounded (places : Nat) (x : Rat) : Decimal :=
  ⟨x < 0, nearest (x.num.natAbs * 10 ^ places) x.den, -places⟩

section Reading

variable {rest : List Rune}

theorem integer_value (n : Int) : (integer n).value = n := by
  have hsign : (if n < 0 then -(n.natAbs : Int) else n.natAbs) = n := by
    split <;> omega
  simp only [integer, Decimal.value, Decimal.numerator, Decimal.denominator, Int.toNat_zero,
    neg_zero, pow_zero, mul_one, decide_eq_true_eq, hsign]
  exact Rat.mkRat_one n

theorem numeral_integer (hrest : Stops rest) (n : Int) :
    ∃ read, numeral (runes (decimalVerb n) ++ rest) = some (read, rest) ∧ read.value = n := by
  rw [← integer_value n]
  exact numeral_write hrest false (integer n) fun _ => rfl

theorem decimalVerb_eq (n : Int) :
    decimalVerb n = (if n < 0 then ['-'] else []) ++ (toDigits n.natAbs).map writeDigit := by
  simp [decimalVerb, write, writePlain, integer, toDigits_ne_nil]

theorem mem_starts_of_mem_decimalVerb {n : Int} {char : Char} (h : char ∈ decimalVerb n) :
    char ∈ starts := by
  have hminus : ∀ char ∈ (if n < 0 then ['-'] else []), char ∈ starts := by
    split <;> simp [starts]
  have hdigit : ∀ digit < 10, writeDigit digit ∈ starts := by decide
  rw [decimalVerb_eq, List.mem_append, List.mem_map] at h
  rcases h with hsign | ⟨digit, hmem, rfl⟩
  · exact hminus char hsign
  · exact hdigit digit (toDigits_lt _ digit hmem)

theorem unsigned_places (hrest : Stops rest) (negative : Bool) (n : Nat) {places : Nat}
    (hplaces : 0 < places) :
    ∃ read, unsigned negative (runes (writePlain (toDigits n)
        ((toDigits n).length + -(places : Int))) ++ rest) = some (read, rest) ∧
      Alike read ⟨negative, n, -places⟩ := by
  by_cases hn : n = 0
  · have hzero : toDigits n = [0] := by rw [toDigits, if_pos hn]
    have hpoint : ((toDigits n).length : Int) + -(places : Int) ≤ 0 := by
      rw [hzero]
      simp only [List.length_singleton]
      omega
    rw [writePlain, if_pos hpoint, unsigned_fraction hrest]
    have hpower : -(((-(((toDigits n).length : Int) + -(places : Int))).toNat +
        (toDigits n).length : Nat) : Int) = -places := by
      omega
    rw [hpower]
    exact ⟨_, rfl, rfl, rfl, rfl⟩
  · exact unsigned_writePlain hrest ⟨negative, n, -places⟩ fun hzero => absurd hzero hn

theorem numeral_rounded (hrest : Stops rest) {places : Nat} (hplaces : 0 < places) (x : Rat) :
    ∃ read, numeral (runes (write false (rounded places x)) ++ rest) = some (read, rest) ∧
      read.value = (rounded places x).value := by
  obtain ⟨read, hread, halike⟩ := unsigned_places hrest (x < 0)
    (nearest (x.num.natAbs * 10 ^ places) x.den) hplaces
  refine ⟨read, ?_, halike.value_eq⟩
  rw [write]
  by_cases hnegative : x < 0
  · rw [decide_eq_true hnegative] at hread
    have hsign : (rounded places x).negative = true := decide_eq_true hnegative
    rw [if_pos hsign]
    exact hread
  · rw [decide_eq_false hnegative] at hread
    have hsign : ¬ (rounded places x).negative = true := by simpa [rounded] using hnegative
    rw [if_neg hsign]
    exact numeral_of_unsigned hread

end Reading

/-! ## How far the rounded number is off -/

theorem nearest_within {a d : Nat} (hd : 0 < d) : 2 * Binary64.dist a (nearest a d * d) ≤ d := by
  have hsplit := Nat.div_add_mod' a d
  have hrest := Nat.mod_lt a hd
  have hnext : (a / d + 1) * d = a / d * d + d := Nat.succ_mul _ _
  unfold nearest Binary64.dist
  dsimp only
  split
  · rw [hnext]
    omega
  · omega

theorem rounded_value (places : Nat) (x : Rat) :
    (rounded places x).value =
      (if x < 0 then -1 else 1) * (nearest (x.num.natAbs * 10 ^ places) x.den : Rat) /
        10 ^ places := by
  rw [rounded, Decimal.value, Rat.mkRat_eq_div]
  by_cases hnegative : x < 0 <;> simp [Decimal.numerator, Decimal.denominator, hnegative]

theorem cast_dist (m n : Nat) : (Binary64.dist m n : Rat) = |(m : Rat) - n| := by
  rcases Nat.le_total m n with hle | hle
  · rw [Binary64.dist, Nat.sub_eq_zero_of_le hle, Nat.zero_add, Nat.cast_sub hle, abs_sub_comm,
      abs_of_nonneg (sub_nonneg.mpr (Nat.cast_le.mpr hle))]
  · rw [Binary64.dist, Nat.sub_eq_zero_of_le hle, Nat.add_zero, Nat.cast_sub hle,
      abs_of_nonneg (sub_nonneg.mpr (Nat.cast_le.mpr hle))]

theorem sign_mul_natAbs (x : Rat) :
    (if x < 0 then -1 else 1) * (x.num.natAbs : Rat) = x * x.den := by
  have habs : ((x.num.natAbs : Int) : Rat) = if x < 0 then -(x.num : Rat) else x.num := by
    split
    · next hnegative =>
        rw [Int.ofNat_natAbs_of_nonpos (Rat.num_neg.mpr hnegative).le, Int.cast_neg]
    · next hnonneg =>
        rw [Int.natAbs_of_nonneg (Rat.num_nonneg.mpr (not_lt.mp hnonneg))]
  rw [Rat.mul_den_eq_num, ← Int.cast_natCast, habs]
  split <;> ring

theorem rounded_within (places : Nat) (x : Rat) :
    |(rounded places x).value - x| ≤ 1 / (2 * 10 ^ places) := by
  have hden : (0 : Rat) < x.den := Nat.cast_pos.mpr x.den_pos
  have hpower : (0 : Rat) < 10 ^ places := by positivity
  have hnear : 2 * |((x.num.natAbs * 10 ^ places : Nat) : Rat) -
      (nearest (x.num.natAbs * 10 ^ places) x.den * x.den : Nat)| ≤ x.den := by
    rw [← cast_dist]
    exact_mod_cast nearest_within x.den_pos
  have hsplit := sign_mul_natAbs x
  have hscaled : ((rounded places x).value - x) * (10 ^ places * x.den) =
      (if x < 0 then -1 else 1) *
        ((nearest (x.num.natAbs * 10 ^ places) x.den * x.den : Nat) -
          ((x.num.natAbs * 10 ^ places : Nat) : Rat)) := by
    rw [rounded_value]
    push_cast
    field_simp
    linear_combination 10 ^ places * hsplit
  have habs : |(rounded places x).value - x| * (10 ^ places * x.den) =
      |((x.num.natAbs * 10 ^ places : Nat) : Rat) -
        (nearest (x.num.natAbs * 10 ^ places) x.den * x.den : Nat)| := by
    rw [← abs_of_pos (mul_pos hpower hden), ← abs_mul, hscaled, abs_mul, abs_sub_comm]
    split <;> simp
  rw [le_div_iff₀ (by positivity)]
  have hcancel : |(rounded places x).value - x| * (2 * 10 ^ places) * x.den ≤ 1 * x.den := by
    linarith
  exact le_of_mul_le_mul_right hcancel hden

end NexPulse.Foundation.Numeral
