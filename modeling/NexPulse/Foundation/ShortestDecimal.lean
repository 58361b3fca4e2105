import NexPulse.Foundation.Binary64
import NexPulse.Foundation.Numeral

/-!
# Binary64 numbers and their shortest decimals

The magnitude of a binary64 number is a natural number of units of `2 ^ -1074`
with 53 significant bits.  A number is written with the fewest digits that read
back as it.
-/

namespace NexPulse.Foundation.Binary64

open NexPulse.Foundation.Numeral

@[irreducible] def places : Nat := 1074

def scale : Nat := 2 ^ places

/-- Where the numbers that round to infinity start, in units. -/
def bound : Nat := 2 ^ (places + 1024)

def units (numerator denominator : Nat) : Nat := round (numerator * scale) denominator

def ofUnits (negative : Bool) (magnitude : Nat) : Rat :=
  mkRat (if negative then -magnitude else magnitude) scale

/-- The nearest binary64 number, unless it is out of range. -/
def ofRat (x : Rat) : Option Rat :=
  let magnitude := units x.num.natAbs x.den
  if magnitude < bound then some (ofUnits (x.num < 0) magnitude) else none

/-- Two multiples of `10 ^ power` on both sides of the magnitude, the nearer one first. -/
def candidates (magnitude : Nat) (power : Int) : List Decimal :=
  let numerator := magnitude * 10 ^ (-power).toNat
  let denominator := scale * 10 ^ power.toNat
  let first := nearest numerator denominator
  [⟨false, first, power⟩, ⟨false, 2 * (numerator / denominator) + 1 - first, power⟩]

def readsAs (magnitude : Nat) (decimal : Decimal) : Bool :=
  units decimal.numerator decimal.denominator = magnitude

def powers (magnitude : Nat) : List Int :=
  -- A power of two has about 0.30103 times its exponent in digits.
  let top := ((magnitude.log2 : Int) - places) * 30103 / 100000 + 2
  (List.range 21).map fun step : Nat => top - step

def exactly (magnitude : Nat) : Decimal := ⟨false, magnitude * 5 ^ places, -places⟩

def shortestOf (magnitude : Nat) : Decimal :=
  if magnitude = 0 then ⟨false, 0, 0⟩
  else (((powers magnitude).flatMap (candidates magnitude)).find? (readsAs magnitude)).getD
    (exactly magnitude)

def shortest (x : Rat) : Decimal :=
  { shortestOf (units x.num.natAbs x.den) with negative := x.num < 0 }

def isScientific (x : Rat) : Bool :=
  let magnitude := units x.num.natAbs x.den
  magnitude ≠ 0 ∧ (magnitude < units 1 (10 ^ 6) ∨ units (10 ^ 21) 1 ≤ magnitude)

def text (x : Rat) : Text := write (isScientific x) (shortest x)

def IsFloat (x : Rat) : Prop :=
  ∃ negative magnitude, Representable magnitude ∧ magnitude < bound ∧
    x = ofUnits negative magnitude

def IsShortest (x : Rat) : Prop := ∃ float, IsFloat float ∧ (shortest float).value = x

/-! ## Reading a number -/

section Round

variable {a d c : Nat}

theorem nearest_mul_right (hc : 0 < c) : nearest (a * c) (d * c) = nearest a d := by
  have hrest : a * c % (d * c) = a % d * c := Nat.mul_mod_mul_right c a d
  have habove : d * c < 2 * (a % d * c) ↔ d < 2 * (a % d) := by
    rw [← Nat.mul_assoc, Nat.mul_lt_mul_right hc]
  have htie : 2 * (a % d * c) = d * c ↔ 2 * (a % d) = d := by
    rw [← Nat.mul_assoc, Nat.mul_left_inj hc.ne']
  simp only [nearest, Nat.mul_div_mul_right a d hc, hrest, habove, htie]

theorem round_mul_right (hc : 0 < c) : round (a * c) (d * c) = round a d := by
  have hexponent : exponent (a * c) (d * c) = exponent a d := by
    rw [exponent, exponent, Nat.mul_div_mul_right a d hc]
  rw [round, round, hexponent, Nat.mul_right_comm, nearest_mul_right hc]

theorem units_mul_right (hc : 0 < c) : units (a * c) (d * c) = units a d := by
  rw [units, units, Nat.mul_right_comm, round_mul_right hc]

theorem units_zero (d : Nat) : units 0 d = 0 := by
  rw [units, Nat.zero_mul, round]
  simp [nearest]

theorem ofUnits_zero (negative : Bool) : ofUnits negative 0 = 0 := by
  cases negative <;> exact Rat.zero_mkRat _

theorem mkRat_parts (negative : Bool) (n : Nat) (hd : d ≠ 0) :
    ∃ common, 0 < common ∧
      n = (mkRat (if negative then -n else n) d).num.natAbs * common ∧
      d = (mkRat (if negative then -n else n) d).den * common ∧
      ((mkRat (if negative then -n else n) d).num < 0 ↔ negative ∧ n ≠ 0) := by
  generalize hx : mkRat (if negative then -n else n) d = x
  obtain ⟨num, den, hden, hcoprime⟩ := x
  obtain ⟨common, hcommon, hnum, hdenominator⟩ := Rat.mkRat_num_den hd hx
  have hpos := Nat.pos_of_ne_zero hcommon
  refine ⟨common, hpos, ?_, hdenominator, ?_⟩
  · have habs := congrArg Int.natAbs hnum
    rw [Int.natAbs_mul, Int.natAbs_natCast] at habs
    rw [← habs]
    cases negative <;> simp
  · have hsign : num < 0 ↔ num * common < 0 := by
      constructor
      · exact fun h => Int.mul_neg_of_neg_of_pos h (Int.natCast_pos.mpr hpos)
      · intro h
        by_contra hnonneg
        exact absurd (Int.mul_nonneg (not_lt.mp hnonneg) (Int.natCast_nonneg common))
          (not_le.mpr h)
    dsimp only
    rw [hsign, ← hnum]
    cases negative with
    | false => simp
    | true =>
        simp
        omega

theorem units_mkRat (negative : Bool) (n : Nat) (hd : d ≠ 0) :
    units (mkRat (if negative then -n else n) d).num.natAbs
      (mkRat (if negative then -n else n) d).den = units n d := by
  obtain ⟨common, hcommon, hn, hden, -⟩ := mkRat_parts negative n hd
  have hcommonFree := @units_mul_right (mkRat (if negative then -n else n) d).num.natAbs
    (mkRat (if negative then -n else n) d).den common hcommon
  rw [← hn, ← hden] at hcommonFree
  exact hcommonFree.symm

theorem ofRat_mkRat (negative : Bool) (n : Nat) (hd : d ≠ 0) :
    ofRat (mkRat (if negative then -n else n) d) =
      if units n d < bound then some (ofUnits negative (units n d)) else none := by
  obtain ⟨-, -, -, -, hsign⟩ := mkRat_parts negative n hd
  simp only [ofRat, units_mkRat negative n hd, hsign]
  by_cases hn : n = 0
  · simp [hn, units_zero, ofUnits_zero]
  · simp [hn]

end Round

/-! ## Reading back what is written -/

section Shortest

variable {x float : Rat} {magnitude : Nat}

theorem scale_pos : 0 < scale := Nat.two_pow_pos _

theorem units_of_representable (h : Representable magnitude) :
    units magnitude scale = magnitude := by
  have hone := @round_mul_right magnitude 1 scale scale_pos
  rw [Nat.one_mul] at hone
  rw [units, hone, round_of_representable h]

theorem denominator_ne_zero (decimal : Decimal) : decimal.denominator ≠ 0 :=
  (Nat.pow_pos (by decide)).ne'

theorem readsAs_exactly (h : Representable magnitude) : readsAs magnitude (exactly magnitude) := by
  have hten : (10 : Nat) ^ places = 5 ^ places * scale := by
    rw [scale, ← Nat.mul_pow]
  have hnumerator : (exactly magnitude).numerator = magnitude * 5 ^ places := by
    simp [exactly, Decimal.numerator]
  have hdenominator : (exactly magnitude).denominator = scale * 5 ^ places := by
    rw [Nat.mul_comm, ← hten]
    simp [exactly, Decimal.denominator]
  have hpos : 0 < 5 ^ places := Nat.pow_pos (by decide)
  rw [readsAs, hnumerator, hdenominator, units_mul_right hpos, units_of_representable h]
  exact decide_eq_true rfl

theorem readsAs_shortestOf (h : Representable magnitude) :
    readsAs magnitude (shortestOf magnitude) := by
  rw [shortestOf]
  split
  · next hzero =>
      rw [hzero]
      exact decide_eq_true (units_zero 1)
  · cases hfound : ((powers magnitude).flatMap (candidates magnitude)).find?
        (readsAs magnitude) with
    | none => exact readsAs_exactly h
    | some decimal => exact List.find?_some hfound

theorem ofUnits_sign (negative : Bool) (magnitude : Nat) :
    ofUnits (decide ((ofUnits negative magnitude).num < 0)) magnitude =
      ofUnits negative magnitude := by
  obtain ⟨-, -, -, -, hsign⟩ := mkRat_parts negative magnitude scale_pos.ne'
  by_cases hzero : magnitude = 0
  · rw [hzero, ofUnits_zero, ofUnits_zero]
  · have hnegative : decide ((ofUnits negative magnitude).num < 0) = negative := by
      rw [Bool.eq_iff_iff, decide_eq_true_iff]
      exact hsign.trans (and_iff_left hzero)
    rw [hnegative]

theorem shortest_ofUnits (negative : Bool) (h : Representable magnitude) :
    shortest (ofUnits negative magnitude) =
      { shortestOf magnitude with negative := (ofUnits negative magnitude).num < 0 } := by
  have hunits := units_mkRat negative magnitude scale_pos.ne'
  rw [units_of_representable h] at hunits
  rw [shortest, ofUnits, hunits]

theorem ofRat_shortest (h : IsFloat float) : ofRat (shortest float).value = some float := by
  obtain ⟨negative, magnitude, hrepresentable, hbound, rfl⟩ := h
  have hreads : units (shortestOf magnitude).numerator (shortestOf magnitude).denominator =
      magnitude :=
    of_decide_eq_true (readsAs_shortestOf hrepresentable)
  rw [Decimal.value, ofRat_mkRat _ _ (denominator_ne_zero _), shortest_ofUnits _ hrepresentable]
  change (if units (shortestOf magnitude).numerator (shortestOf magnitude).denominator < bound then
    some (ofUnits _ (units (shortestOf magnitude).numerator (shortestOf magnitude).denominator))
    else none) = _
  rw [hreads, if_pos hbound, ofUnits_sign]

theorem isFloat_of_ofRat (h : ofRat x = some float) : IsFloat float := by
  rw [ofRat] at h
  split at h
  · next hbound =>
      exact ⟨_, _, representable_round _ _, hbound, (Option.some.inj h).symm⟩
  · contradiction

/-- A number survives being read and written if it is what is written for some number. -/
theorem shortest_eq_iff (h : ofRat x = some float) :
    (shortest float).value = x ↔ IsShortest x := by
  constructor
  · exact fun hsame => ⟨float, isFloat_of_ofRat h, hsame⟩
  · rintro ⟨other, hother, rfl⟩
    rw [ofRat_shortest hother] at h
    rw [Option.some.inj h]

instance : DecidablePred IsShortest := fun x =>
  decidable_of_iff (∃ float ∈ ofRat x, (shortest float).value = x) <| by
    constructor
    · rintro ⟨float, hfloat, hsame⟩
      exact (shortest_eq_iff hfloat).mp hsame
    · rintro ⟨float, hfloat, rfl⟩
      exact ⟨float, ofRat_shortest hfloat, rfl⟩

theorem coefficient_shortest (h : IsFloat float) (hzero : (shortest float).coefficient = 0) :
    (shortest float).exponent = 0 := by
  obtain ⟨negative, magnitude, hrepresentable, -, rfl⟩ := h
  rw [shortest_ofUnits _ hrepresentable] at hzero ⊢
  have hreads : units (shortestOf magnitude).numerator (shortestOf magnitude).denominator =
      magnitude :=
    of_decide_eq_true (readsAs_shortestOf hrepresentable)
  have hnone : (shortestOf magnitude).numerator = 0 := by
    rw [Decimal.numerator, hzero, Nat.zero_mul]
  rw [hnone, units_zero] at hreads
  rw [← hreads]
  rfl

theorem numeral_text (h : IsFloat float) {rest : List Rune} (hrest : Stops rest) :
    ∃ read, numeral (runes (text float) ++ rest) = some (read, rest) ∧
      read.value = (shortest float).value :=
  numeral_write hrest _ _ (coefficient_shortest h)

end Shortest

end NexPulse.Foundation.Binary64
