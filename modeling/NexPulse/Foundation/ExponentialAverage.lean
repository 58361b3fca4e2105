import Mathlib.Algebra.Order.Field.Basic
import Mathlib.Tactic.GCongr
import Mathlib.Tactic.Linarith
import Mathlib.Tactic.LinearCombination
import Mathlib.Tactic.Ring

/-!
# Exponential averages

An exponential average moves a fixed fraction of the way from its old value to
each new sample.  It stays within the bounds of what it has averaged, and each
sample above a bound makes it cover a larger part of the bound, whatever it was
before.  Equal samples leave a share of the old distance that shrinks by a fixed
factor; samples that grow slowly enough never get far ahead of it.
-/

namespace NexPulse.Foundation

variable {K : Type*} [Field K]

def smooth (weight sample average : K) : K := weight * sample + (1 - weight) * average

def smoothAll (weight : K) (average : K) (samples : List K) : K :=
  samples.foldl (fun average sample => smooth weight sample average) average

@[simp] theorem smoothAll_nil (weight average : K) : smoothAll weight average [] = average := rfl

@[simp] theorem smoothAll_cons (weight average sample : K) (samples : List K) :
    smoothAll weight average (sample :: samples) =
      smoothAll weight (smooth weight sample average) samples := rfl

theorem smooth_sub (weight sample average : K) :
    smooth weight sample average - sample = (1 - weight) * (average - sample) := by
  unfold smooth
  ring

theorem smoothAll_replicate (weight sample average : K) (count : Nat) :
    smoothAll weight average (List.replicate count sample) =
      sample + (1 - weight) ^ count * (average - sample) := by
  induction count generalizing average with
  | zero => simp
  | succ count ih =>
      rw [List.replicate_succ, smoothAll_cons, ih, smooth_sub, pow_succ]
      ring

theorem smoothAll_concat (weight average sample : K) (samples : List K) :
    smoothAll weight average (samples ++ [sample]) =
      smooth weight sample (smoothAll weight average samples) := by
  simp [smoothAll]

theorem smoothAll_geometric {weight growth part : K}
    (hpart : part * (growth - (1 - weight)) = weight * growth) (first : K) (count : Nat) :
    smoothAll weight first ((List.range count).map fun index => growth ^ (index + 1) * first) =
      part * growth ^ count * first + (1 - weight) ^ count * (1 - part) * first := by
  induction count with
  | zero =>
      simp only [List.range_zero, List.map_nil, smoothAll_nil, pow_zero]
      ring
  | succ count ih =>
      rw [List.range_succ, List.map_append, List.map_singleton, smoothAll_concat, ih, smooth,
        pow_succ, pow_succ]
      linear_combination -(growth ^ count * first) * hpart

variable [LinearOrder K] [IsStrictOrderedRing K] {weight sample average low high : K}

section Bounds

variable (hpos : 0 ≤ weight) (hle : weight ≤ 1)
include hpos hle

theorem le_smooth (hsample : low ≤ sample) (haverage : low ≤ average) :
    low ≤ smooth weight sample average := by
  calc low = weight * low + (1 - weight) * low := by ring
    _ ≤ weight * sample + (1 - weight) * average := by gcongr

theorem smooth_le (hsample : sample ≤ high) (haverage : average ≤ high) :
    smooth weight sample average ≤ high := by
  calc weight * sample + (1 - weight) * average
      ≤ weight * high + (1 - weight) * high := by gcongr
    _ = high := by ring

theorem le_smoothAll {samples : List K} (haverage : low ≤ average)
    (hsamples : ∀ sample ∈ samples, low ≤ sample) : low ≤ smoothAll weight average samples := by
  induction samples generalizing average with
  | nil => exact haverage
  | cons sample samples ih =>
      obtain ⟨hfirst, hrest⟩ := List.forall_mem_cons.mp hsamples
      exact ih (le_smooth hpos hle hfirst haverage) hrest

theorem smoothAll_le {samples : List K} (haverage : average ≤ high)
    (hsamples : ∀ sample ∈ samples, sample ≤ high) : smoothAll weight average samples ≤ high := by
  induction samples generalizing average with
  | nil => exact haverage
  | cons sample samples ih =>
      obtain ⟨hfirst, hrest⟩ := List.forall_mem_cons.mp hsamples
      exact ih (smooth_le hpos hle hfirst haverage) hrest

theorem smooth_covers {rest : K} (hsample : low ≤ sample) (haverage : (1 - rest) * low ≤ average) :
    (1 - (1 - weight) * rest) * low ≤ smooth weight sample average := by
  calc (1 - (1 - weight) * rest) * low
      = weight * low + (1 - weight) * ((1 - rest) * low) := by ring
    _ ≤ weight * sample + (1 - weight) * average := by gcongr

end Bounds

/-- Comparing a sample with the average it is part of is comparing it with the average before. -/
theorem smooth_mul_lt_iff {factor : K} (h : factor * weight < 1) :
    smooth weight sample average * factor < sample ↔
      factor * (1 - weight) / (1 - factor * weight) * average < sample := by
  have hpos : 0 < 1 - factor * weight := sub_pos.mpr h
  rw [div_mul_eq_mul_div, div_lt_iff₀ hpos, smooth]
  constructor <;> intro hlt <;> linarith

theorem le_mul_smooth {factor next : K} (hle : weight ≤ 1) (haverage : sample ≤ factor * average)
    (hgrowth : next * (1 - factor * weight) ≤ sample * (1 - weight)) :
    next ≤ factor * smooth weight next average := by
  have hshare : (1 - weight) * sample ≤ (1 - weight) * (factor * average) :=
    mul_le_mul_of_nonneg_left haverage (sub_nonneg.mpr hle)
  unfold smooth
  linarith

end NexPulse.Foundation
