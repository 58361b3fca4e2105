import Mathlib.Algebra.Order.Ring.Nat
import Mathlib.Algebra.Order.Ring.Int
import Mathlib.Order.Monotone.Basic
import Mathlib.Tactic.Ring

/-!
# Rounding to 53 significant bits

`round a d` is the natural number with 53 significant bits that is nearest to
`a / d`, with ties to the even one.  That it is nearest determines its order
theory: rounding is monotone and leaves what is representable alone.
-/

namespace NexPulse.Foundation.Binary64

/-- The natural number nearest to `a / d`, ties to even. -/
def nearest (a d : Nat) : Nat :=
  let quotient := a / d
  let rest := a % d
  if d < 2 * rest ∨ (2 * rest = d ∧ quotient % 2 = 1) then quotient + 1 else quotient

def exponent (a d : Nat) : Nat := (a / d).log2 - 52

def round (a d : Nat) : Nat := nearest a (d * 2 ^ exponent a d) * 2 ^ exponent a d

def Representable (k : Nat) : Prop := ∃ significand exponent, significand < 2 ^ 53 ∧
  k = significand * 2 ^ exponent

def dist (m n : Nat) : Nat := m - n + (n - m)

/-! ## The nearest multiple -/

section Nearest

variable {a d : Nat}

theorem nearest_le (a d : Nat) : nearest a d ≤ a / d + 1 := by
  unfold nearest
  dsimp only
  split <;> omega

theorem nearest_dist (hd : 0 < d) (k : Nat) : dist a (nearest a d * d) ≤ dist a (k * d) := by
  have hsplit := Nat.div_add_mod' a d
  have hrest := Nat.mod_lt a hd
  have hnext : (a / d + 1) * d = a / d * d + d := Nat.succ_mul _ _
  have hside : k * d ≤ a / d * d ∨ a / d * d + d ≤ k * d := by
    rcases Nat.lt_or_ge (a / d) k with habove | hbelow
    · exact .inr (hnext ▸ Nat.mul_le_mul_right d habove)
    · exact .inl (Nat.mul_le_mul_right d hbelow)
  unfold nearest dist
  dsimp only
  split
  · rw [hnext]
    omega
  · omega

end Nearest

/-! ## The nearest representable number -/

section Round

variable {a b d k : Nat}

theorem representable_of_lt {significand : Nat} (h : significand ≤ 2 ^ 53) (exponent : Nat) :
    Representable (significand * 2 ^ exponent) := by
  rcases h.lt_or_eq with hlt | rfl
  · exact ⟨significand, exponent, hlt, rfl⟩
  · exact ⟨2 ^ 52, exponent + 1, by decide, by ring⟩

theorem quotient_lt (a d : Nat) : a / d < 2 ^ (exponent a d + 53) := by
  refine (Nat.lt_log2_self (n := a / d)).trans_le (Nat.pow_le_pow_right (by decide) ?_)
  unfold exponent
  omega

theorem representable_round (a d : Nat) : Representable (round a d) := by
  refine representable_of_lt ?_ _
  have hquotient : a / (d * 2 ^ exponent a d) < 2 ^ 53 := by
    rw [← Nat.div_div_eq_div_mul, Nat.div_lt_iff_lt_mul (Nat.two_pow_pos _), ← Nat.pow_add,
      Nat.add_comm 53]
    exact quotient_lt a d
  exact (nearest_le _ _).trans hquotient

theorem grid_or_below (hk : Representable k) (a d : Nat) :
    (∃ j, k = j * 2 ^ exponent a d) ∨
      k < 2 ^ (exponent a d + 52) ∧ 2 ^ (exponent a d + 52) ≤ a / d := by
  obtain ⟨significand, e, hlt, rfl⟩ := hk
  by_cases hfine : exponent a d ≤ e
  · refine .inl ⟨significand * 2 ^ (e - exponent a d), ?_⟩
    rw [Nat.mul_assoc, ← Nat.pow_add, Nat.sub_add_cancel hfine]
  · have hlog : exponent a d + 52 = (a / d).log2 := by
      unfold exponent at hfine ⊢
      omega
    refine .inr ⟨?_, ?_⟩
    · have hscaled : significand * 2 ^ e < 2 ^ 53 * 2 ^ e :=
        Nat.mul_lt_mul_of_pos_right hlt (Nat.two_pow_pos _)
      rw [← Nat.pow_add] at hscaled
      exact hscaled.trans_le (Nat.pow_le_pow_right (by decide) (by omega))
    · rw [hlog]
      refine Nat.log2_self_le fun hzero => hfine ?_
      simp [exponent, hzero]

theorem round_dist (hd : 0 < d) (hk : Representable k) :
    dist a (round a d * d) ≤ dist a (k * d) := by
  have hgrid : ∀ j, dist a (round a d * d) ≤ dist a (j * (d * 2 ^ exponent a d)) := by
    have hmul : round a d * d = nearest a (d * 2 ^ exponent a d) * (d * 2 ^ exponent a d) := by
      rw [round]
      ring
    rw [hmul]
    exact nearest_dist (Nat.mul_pos hd (Nat.two_pow_pos _))
  rcases grid_or_below hk a d with ⟨j, rfl⟩ | ⟨hbelow, hbinade⟩
  · have hsame : j * 2 ^ exponent a d * d = j * (d * 2 ^ exponent a d) := by ring
    rw [hsame]
    exact hgrid j
  · -- The start of the binade is on the grid, and lies between `k` and `a / d`.
    have hstart := hgrid (2 ^ 52)
    have hstart_le : 2 ^ 52 * (d * 2 ^ exponent a d) ≤ a := by
      have := (Nat.le_div_iff_mul_le hd).mp hbinade
      calc 2 ^ 52 * (d * 2 ^ exponent a d) = 2 ^ (exponent a d + 52) * d := by ring
        _ ≤ a := this
    have hk_le : k * d ≤ 2 ^ 52 * (d * 2 ^ exponent a d) := by
      calc k * d ≤ 2 ^ (exponent a d + 52) * d := Nat.mul_le_mul_right d hbelow.le
        _ = 2 ^ 52 * (d * 2 ^ exponent a d) := by ring
    unfold dist at hstart ⊢
    omega

theorem round_mono (hd : 0 < d) (h : a ≤ b) : round a d ≤ round b d := by
  by_contra hlt
  have hfirst := round_dist (a := a) hd (representable_round b d)
  have hsecond := round_dist (a := b) hd (representable_round a d)
  have hscaled : round b d * d + d ≤ round a d * d := by
    rw [← Nat.succ_mul]
    exact Nat.mul_le_mul_right d (not_le.mp hlt)
  unfold dist at hfirst hsecond
  obtain rfl : a = b := by omega
  exact hlt le_rfl

theorem round_of_representable (hk : Representable k) : round k 1 = k := by
  have h := round_dist (a := k) Nat.one_pos hk
  simp only [dist, Nat.mul_one] at h
  omega

end Round

/-! ## Integers -/

/-- The integer with 53 significant bits nearest to `n`, ties to even. -/
def ofInt : Int → Int
  | .ofNat n => round n 1
  | .negSucc n => -round (n + 1) 1

theorem ofInt_of_le {n : Int} (hlow : -2 ^ 53 ≤ n) (hhigh : n ≤ 2 ^ 53) : ofInt n = n := by
  have hself : ∀ k : Nat, k ≤ 2 ^ 53 → round k 1 = k := fun k hk =>
    round_of_representable (by simpa using representable_of_lt hk 0)
  cases n with
  | ofNat n =>
      rw [Int.ofNat_eq_natCast] at hhigh
      rw [ofInt, hself n (by omega)]
      rfl
  | negSucc n =>
      rw [ofInt, hself (n + 1) (by omega)]
      rfl

theorem ofInt_mono {m n : Int} (h : m ≤ n) : ofInt m ≤ ofInt n := by
  cases m with
  | ofNat m =>
      cases n with
      | ofNat n => exact Int.ofNat_le.mpr (round_mono Nat.one_pos (Int.ofNat_le.mp h))
      | negSucc n => exact absurd ((Int.natCast_nonneg m).trans h) (Int.negSucc_not_nonneg n).mp
  | negSucc m =>
      cases n with
      | ofNat n =>
          simp only [ofInt]
          omega
      | negSucc n =>
          have hle := @round_mono (n + 1) (m + 1) 1 Nat.one_pos (by omega)
          simp only [ofInt]
          omega

theorem ofInt_nonneg {n : Int} (h : 0 ≤ n) : 0 ≤ ofInt n := by
  have hzero : ofInt 0 = 0 := by decide
  exact hzero ▸ ofInt_mono h

example : ofInt 9007199254740993 = 9007199254740992 := by decide

end NexPulse.Foundation.Binary64
