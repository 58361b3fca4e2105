import NexPulse.Foundation.Fixed
import NexPulse.Foundation.ShortestDecimal

/-!
# Whole numbers among the binary64 numbers

A whole number of fewer than 53 bits is a binary64 number, and its shortest
decimal is the number itself: a decimal with zeros at its end that reads as
another whole number is too far away.  So it is written as integers are.
-/

namespace NexPulse.Foundation.Binary64

open NexPulse.Foundation.Numeral

section Natural

variable {n k : Nat}

theorem units_whole (h : n < 2 ^ 53) : units n 1 = n * scale :=
  round_of_representable ⟨n, places, h, rfl⟩

theorem le_units (h : 2 ^ 53 ≤ k) : 2 ^ 53 * scale ≤ units k 1 := by
  have hbound : round (2 ^ 53 * scale) 1 = 2 ^ 53 * scale :=
    round_of_representable (representable_of_lt le_rfl places)
  rw [← hbound]
  exact round_mono Nat.one_pos (Nat.mul_le_mul_right scale h)

theorem units_eq_iff (h : n < 2 ^ 53) : units k 1 = n * scale ↔ k = n := by
  constructor
  · intro hunits
    rcases Nat.lt_or_ge k (2 ^ 53) with hsmall | hlarge
    · rw [units_whole hsmall] at hunits
      exact Nat.eq_of_mul_eq_mul_right scale_pos hunits
    · have hle := le_units hlarge
      rw [hunits] at hle
      exact absurd (Nat.le_of_mul_le_mul_right hle scale_pos) (by omega)
  · rintro rfl
    exact units_whole h

theorem readsAs_whole (h : n < 2 ^ 53) (coefficient power : Nat) :
    readsAs (n * scale) ⟨false, coefficient, power⟩ = true ↔ coefficient * 10 ^ power = n := by
  rw [readsAs, decide_eq_true_iff, ← units_eq_iff h]
  simp [Decimal.numerator, Decimal.denominator]

theorem log2_units (h : n ≠ 0) : (n * scale).log2 = n.log2 + places := by
  rw [scale, Nat.log2_eq_iff (Nat.mul_ne_zero h (Nat.two_pow_pos _).ne')]
  have hlow := Nat.log2_self_le h
  have hhigh := Nat.lt_log2_self (n := n)
  constructor
  · rw [Nat.pow_add]
    exact Nat.mul_le_mul_right _ hlow
  · rw [Nat.add_right_comm, Nat.pow_add]
    exact Nat.mul_lt_mul_of_pos_right hhigh (Nat.two_pow_pos _)

theorem powers_whole (hzero : n ≠ 0) (h : n < 2 ^ 53) :
    ∃ (front : List Nat) (back : List Int),
      powers (n * scale) = front.map Nat.cast ++ 0 :: back := by
  have hlog : n.log2 < 53 := (Nat.log2_lt hzero).mpr h
  obtain ⟨top, htop, htwenty⟩ : ∃ top : Nat,
      (((n * scale).log2 : Int) - places) * 30103 / 100000 + 2 = top ∧ top ≤ 20 := by
    refine ⟨(n.log2 * 30103 / 100000 + 2 : Nat), ?_, by omega⟩
    rw [log2_units hzero]
    push_cast
    rw [add_sub_cancel_right]
  have hsplit : List.range 21 = List.range top ++ (List.range (20 - top + 1)).map (top + ·) := by
    rw [← List.range_add]
    congr 1
    omega
  refine ⟨(List.range top).map (top - ·),
    ((List.range (20 - top)).map Nat.succ).map fun step => ((top : Int) - (top + step : Nat)), ?_⟩
  rw [powers, htop, hsplit, List.map_append, List.range_succ_eq_map, List.map_cons, List.map_cons,
    List.map_map, List.map_map]
  congr 1
  · rw [List.map_map]
    refine List.map_congr_left fun step hstep => ?_
    have hlt := List.mem_range.mp hstep
    simp only [Function.comp_apply]
    omega
  · simp only [Nat.add_zero, sub_self, List.map_map]
    rfl

theorem nearest_exact (k : Nat) {d : Nat} (hd : 0 < d) : nearest (k * d) d = k := by
  simp [nearest, Nat.mul_div_cancel k hd, hd.ne]

theorem shortestOf_whole (h : n < 2 ^ 53) :
    ∃ coefficient power : Nat, shortestOf (n * scale) = ⟨false, coefficient, power⟩ ∧
      coefficient * 10 ^ power = n ∧ (coefficient = 0 → power = 0) := by
  by_cases hzero : n = 0
  · subst hzero
    exact ⟨0, 0, by simp [shortestOf], rfl, fun _ => rfl⟩
  · obtain ⟨front, back, hpowers⟩ := powers_whole hzero h
    have hself : readsAs (n * scale) ⟨false, n, 0⟩ = true := (readsAs_whole h n 0).mpr (by simp)
    have hcandidates : candidates (n * scale) 0 =
        ⟨false, n, 0⟩ :: (candidates (n * scale) 0).tail := by
      simp [candidates, nearest_exact n scale_pos]
    have hunits : n * scale ≠ 0 := Nat.mul_ne_zero hzero scale_pos.ne'
    rw [shortestOf, if_neg hunits, hpowers, List.flatMap_append, List.flatMap_cons, hcandidates,
      List.find?_append]
    cases hfound : ((front.map Nat.cast).flatMap (candidates (n * scale))).find?
        (readsAs (n * scale)) with
    | none =>
        rw [List.cons_append, List.find?_cons_of_pos hself]
        exact ⟨n, 0, rfl, by simp, fun hn => absurd hn hzero⟩
    | some decimal =>
        have hreads := List.find?_some hfound
        obtain ⟨power, hpower, hdecimal⟩ := List.mem_flatMap.mp (List.mem_of_find?_eq_some hfound)
        obtain ⟨k, -, rfl⟩ := List.mem_map.mp hpower
        obtain ⟨coefficient, rfl⟩ : ∃ coefficient, decimal = ⟨false, coefficient, k⟩ := by
          rcases List.mem_cons.mp hdecimal with rfl | hother
          · exact ⟨_, rfl⟩
          · exact ⟨_, List.mem_singleton.mp hother⟩
        have hvalue := (readsAs_whole h coefficient k).mp hreads
        refine ⟨coefficient, k, rfl, hvalue, fun hnone => ?_⟩
        rw [hnone, Nat.zero_mul] at hvalue
        exact absurd hvalue.symm hzero

end Natural

/-! ## Digits with zeros at the end -/

theorem toDigits_mul_pow {coefficient : Nat} (h : coefficient ≠ 0) (power : Nat) :
    toDigits (coefficient * 10 ^ power) = toDigits coefficient ++ List.replicate power 0 := by
  have hproduct : coefficient * 10 ^ power ≠ 0 := Nat.mul_ne_zero h (Nat.pow_pos (by decide)).ne'
  rw [toDigits, if_neg hproduct, toDigits, if_neg h, Nat.mul_comm,
    Nat.digits_base_pow_mul (by decide) (Nat.pos_of_ne_zero h), List.reverse_append,
    List.reverse_replicate]

theorem write_whole (negative : Bool) (coefficient power : Nat)
    (hzero : coefficient = 0 → power = 0) :
    write false ⟨negative, coefficient, power⟩ =
      (if negative then ['-'] else []) ++
        (toDigits (coefficient * 10 ^ power)).map writeDigit := by
  have hdigits : toDigits (coefficient * 10 ^ power) =
      toDigits coefficient ++ List.replicate power 0 := by
    by_cases hnone : coefficient = 0
    · rw [hzero hnone, Nat.pow_zero, Nat.mul_one, List.replicate_zero, List.append_nil]
    · exact toDigits_mul_pow hnone power
  have hlength := List.length_pos_iff.mpr (toDigits_ne_nil coefficient)
  have hpoint : ¬ ((toDigits coefficient).length : Int) + power ≤ 0 := by omega
  have hlong : ((toDigits coefficient).length : Int) ≤ (toDigits coefficient).length + power := by
    omega
  have hcount : (((toDigits coefficient).length : Int) + power).toNat -
      (toDigits coefficient).length = power := by
    omega
  rw [write, writePlain, hdigits]
  simp only [Bool.false_eq_true, if_false, hpoint, hlong, if_true, hcount]

/-! ## Integers -/

section Integer

variable {n : Int}

theorem shortest_whole (h : n.natAbs < 2 ^ 53) :
    ∃ coefficient power : Nat, shortest n = ⟨n < 0, coefficient, power⟩ ∧
      coefficient * 10 ^ power = n.natAbs ∧ (coefficient = 0 → power = 0) := by
  obtain ⟨coefficient, power, hshortest, hvalue, hzero⟩ := shortestOf_whole h
  refine ⟨coefficient, power, ?_, hvalue, hzero⟩
  rw [shortest, Rat.num_intCast, Rat.den_intCast, units_whole h, hshortest]

theorem value_shortest_whole (h : n.natAbs < 2 ^ 53) : (shortest n).value = n := by
  obtain ⟨coefficient, power, hshortest, hvalue, -⟩ := shortest_whole h
  rw [hshortest, ← integer_value n]
  simp [Decimal.value, Decimal.numerator, Decimal.denominator, integer, hvalue]

theorem isScientific_whole (h : n.natAbs < 2 ^ 53) : isScientific n = false := by
  have hsmall : units 1 (10 ^ 6) ≤ 1 * scale := by
    have hone := @units_mul_right 1 1 (10 ^ 6) (by decide)
    rw [units_whole (by decide)] at hone
    rw [← hone]
    exact round_mono (by decide) (Nat.mul_le_mul_right scale (by decide))
  have hlarge : 2 ^ 53 * scale ≤ units (10 ^ 21) 1 := le_units (by decide)
  have hbelow : n.natAbs * scale < 2 ^ 53 * scale := Nat.mul_lt_mul_of_pos_right h scale_pos
  rw [isScientific, Rat.num_intCast, Rat.den_intCast, units_whole h, decide_eq_false_iff_not]
  rintro ⟨hzero, htiny | hhuge⟩
  · have hpos : 1 * scale ≤ n.natAbs * scale :=
      Nat.mul_le_mul_right scale (Nat.pos_of_ne_zero fun hnone => hzero (by simp [hnone]))
    omega
  · omega

theorem text_whole (h : n.natAbs < 2 ^ 53) : text n = decimalVerb n := by
  obtain ⟨coefficient, power, hshortest, hvalue, hzero⟩ := shortest_whole h
  rw [text, isScientific_whole h, hshortest, write_whole _ _ _ hzero, hvalue, decimalVerb_eq]
  simp

theorem ofRat_whole (h : n.natAbs < 2 ^ 53) : ofRat n = some (n : Rat) := by
  have hbound : n.natAbs * scale < bound := by
    calc n.natAbs * scale < 2 ^ 53 * scale := Nat.mul_lt_mul_of_pos_right h scale_pos
      _ = 2 ^ (53 + places) := by rw [scale, ← Nat.pow_add]
      _ ≤ bound := Nat.pow_le_pow_right (by decide) (by omega)
  have hsigned : (if n < 0 then -((n.natAbs * scale : Nat) : Int) else (n.natAbs * scale : Nat)) =
      n * scale := by
    rw [Nat.cast_mul]
    split
    · rw [Int.ofNat_natAbs_of_nonpos (by omega)]
      ring
    · rw [Int.natAbs_of_nonneg (by omega)]
  have hunits : ofUnits (n < 0) (n.natAbs * scale) = n := by
    have hone : mkRat (n * scale) (1 * scale) = mkRat n 1 := Rat.mkRat_mul_right scale_pos.ne'
    rw [Nat.one_mul, Rat.mkRat_one] at hone
    rw [ofUnits]
    simp only [decide_eq_true_eq, hsigned, hone]
  rw [ofRat, Rat.num_intCast, Rat.den_intCast, units_whole h, if_pos hbound, hunits]

end Integer

end NexPulse.Foundation.Binary64
