import NexPulse.Anomaly.Spikes
import Mathlib.Algebra.Order.Archimedean.Basic
import Mathlib.Tactic.FieldSimp

/-!
# Jumps and slow growth

After a jump to a steady level the average closes a fifth of the distance each
second, which tells tick by tick whether an alert is published and what it
says.  A load that grows by no more than a third each second stays below twice
the average that contains it, however high it gets.
-/

namespace NexPulse.Anomaly

open NexPulse.Foundation

theorem one_sub_alpha : 1 - alpha = 4 / 5 := by norm_num [alpha]

namespace Evaluator

variable {evaluator : Evaluator}

theorem tick_initialized_alert (h : evaluator.initialized = true) (rps : Int) :
    (evaluator.tick rps).2 =
      if (rps : ℚ) > smooth alpha rps evaluator.currentEMA * 2 ∧ rps > 100 then
        some ⟨rps, smooth alpha rps evaluator.currentEMA⟩
      else none := by
  simp [tick, h, smooth]

def jumpAlert (average : ℚ) (level tick : Nat) : Option SpikeAlert :=
  if 100 < level ∧ 5 * (level : ℚ) < 8 * (4 / 5) ^ tick * (level - average) then
    some ⟨level, level + (4 / 5) ^ (tick + 1) * (average - level)⟩
  else none

theorem tick_after_replicate (h : evaluator.initialized = true) (level tick : Nat) :
    ((evaluator.evaluate (List.replicate tick level)).1.tick level).2 =
      jumpAlert evaluator.currentEMA level tick := by
  have hstate := evaluate_initialized h (List.replicate tick level)
  rw [List.map_replicate, smoothAll_replicate, one_sub_alpha] at hstate
  have hema : smooth alpha ((level : Int) : ℚ)
      (level + (4 / 5) ^ tick * (evaluator.currentEMA - level)) =
        level + (4 / 5) ^ (tick + 1) * (evaluator.currentEMA - level) := by
    rw [smooth, one_sub_alpha, alpha, pow_succ]
    push_cast
    ring
  rw [hstate, tick_initialized_alert rfl, hema, jumpAlert]
  refine if_congr ?_ rfl rfl
  rw [pow_succ, and_comm, gt_iff_lt, gt_iff_lt]
  refine and_congr (by norm_cast) ?_
  push_cast
  constructor <;> intro hlt <;> linarith

end Evaluator

/--
From every seeded state, the ticks of a stretch at one level publish alerts as
long as the distance to the average, four fifths of the one before each time,
is more than five eighths of the level.
-/
theorem jump_response (history : List Nat) (level ticks : Nat)
    (hseeded : (after history).initialized = true) :
    ((after history).evaluate (List.replicate ticks level)).2 =
      (List.range ticks).map (Evaluator.jumpAlert (historicalAverage history) level) := by
  have hema : (after history).currentEMA = historicalAverage history := by rw [after_eq]
  refine List.ext_getElem? fun tick => ?_
  rw [Evaluator.evaluate_getElem?, List.getElem?_replicate, List.getElem?_map]
  by_cases htick : tick < ticks
  · rw [if_pos htick, List.getElem?_range htick, Option.map_some, Option.map_some,
      List.take_replicate, min_eq_left htick.le, Evaluator.tick_after_replicate hseeded, hema]
  · rw [if_neg htick, List.getElem?_eq_none (by simpa using htick)]
    rfl

theorem jump_response_three_alerts :
    ((after [20]).evaluate (List.replicate 5 1000)).2 =
      [some ⟨1000, 216⟩, some ⟨1000, 1864 / 5⟩, some ⟨1000, 12456 / 25⟩, none, none] := by
  rw [jump_response [20] 1000 5 rfl]
  norm_num [List.range_succ, Evaluator.jumpAlert, historicalAverage, sinceSeeding]

/-! ## Slow growth -/

def GrowsSlowly (counts : List Nat) : Prop :=
  counts.IsChain fun first second => 3 * second ≤ 4 * first

instance (counts : List Nat) : Decidable (GrowsSlowly counts) :=
  inferInstanceAs (Decidable (counts.IsChain _))

theorem Evaluator.tick_silent {evaluator : Evaluator} {rps : Nat}
    (h : (rps : ℚ) ≤ 2 * (evaluator.tick rps).1.currentEMA) : (evaluator.tick rps).2 = none := by
  cases hinitialized : evaluator.initialized with
  | false => rw [tick_uninitialized hinitialized]
  | true =>
      rw [tick_initialized hinitialized] at h
      rw [tick_initialized_alert hinitialized, if_neg]
      rintro ⟨hspike, -⟩
      push_cast at h hspike
      linarith

theorem Evaluator.evaluate_silent {evaluator : Evaluator} {last : Nat} {counts : List Nat}
    (hinitialized : evaluator.initialized = true)
    (hlast : (last : ℚ) ≤ 2 * evaluator.currentEMA) (hgrowth : GrowsSlowly (last :: counts)) :
    ∀ published ∈ (evaluator.evaluate counts).2, published = none := by
  induction counts generalizing evaluator last with
  | nil => simp [evaluate]
  | cons count counts ih =>
      obtain ⟨hstep, hrest⟩ := List.isChain_cons_cons.mp hgrowth
      have hnext : (count : ℚ) ≤ 2 * (evaluator.tick count).1.currentEMA := by
        have hcount : (3 : ℚ) * count ≤ 4 * last := by exact_mod_cast hstep
        rw [tick_initialized hinitialized, Int.cast_natCast]
        refine le_mul_smooth alpha_le_one hlast ?_
        rw [one_sub_alpha, alpha]
        linarith
      have hmarked : (evaluator.tick count).1.initialized = true :=
        congrArg initialized (tick_initialized hinitialized count)
      rw [evaluate]
      exact List.forall_mem_cons.mpr ⟨tick_silent hnext, ih hmarked hnext hrest⟩

theorem mem_evaluate_growing {evaluator : Evaluator} {counts : List Nat}
    (hinitialized : evaluator.initialized = false) (hgrowth : GrowsSlowly (sinceSeeding counts)) :
    ∀ published ∈ (evaluator.evaluate counts).2, published = none := by
  induction counts generalizing evaluator with
  | nil => simp [Evaluator.evaluate]
  | cons count counts ih =>
      have hfirst := Evaluator.tick_uninitialized hinitialized count
      rw [Evaluator.evaluate, hfirst]
      refine List.forall_mem_cons.mpr ⟨rfl, ?_⟩
      cases count with
      | zero => exact ih rfl hgrowth
      | succ count =>
          refine Evaluator.evaluate_silent (by simp) ?_
            (by simpa [sinceSeeding] using hgrowth : GrowsSlowly ((count + 1) :: counts))
          push_cast
          have hpositive : (0 : ℚ) ≤ count := Nat.cast_nonneg count
          linarith

/-! ## Faster growth -/

/-- The count of the second `second`, in a load that grows by `up / down` up to second `last`. -/
def growing (up down last second : Nat) : Nat := 101 * up ^ second * down ^ (last - second)

section Growing

variable {up down last : Nat}

theorem growing_succ {second : Nat} (h : second < last) :
    down * growing up down last (second + 1) = up * growing up down last second := by
  obtain ⟨more, rfl⟩ : ∃ more, last = second + 1 + more := ⟨last - (second + 1), by omega⟩
  have hnext : second + 1 + more - second = more + 1 := by omega
  rw [growing, growing, Nat.add_sub_cancel_left, hnext]
  ring

theorem growing_pos (hup : 0 < up) (hdown : 0 < down) (second : Nat) :
    100 < growing up down last second := by
  have hproduct : 0 < up ^ second * down ^ (last - second) :=
    Nat.mul_pos (Nat.pow_pos hup) (Nat.pow_pos hdown)
  rw [growing, Nat.mul_assoc]
  omega

theorem cast_growing (hdown : 0 < down) {second : Nat} (h : second ≤ last) :
    (growing up down last second : ℚ) =
      ((up : ℚ) / down) ^ second * growing up down last 0 := by
  have hne : (down : ℚ) ≠ 0 := by exact_mod_cast hdown.ne'
  obtain ⟨more, rfl⟩ := Nat.exists_eq_add_of_le h
  rw [growing, growing, Nat.add_sub_cancel_left, Nat.sub_zero]
  push_cast
  rw [div_pow, pow_add]
  field_simp

theorem sinceSeeding_growing (hup : 0 < up) (hdown : 0 < down) (count : Nat) :
    sinceSeeding ((List.range (count + 1)).map (growing up down last)) =
      (List.range (count + 1)).map (growing up down last) := by
  have hseed : growing up down last 0 ≠ 0 := by
    have := @growing_pos up down last hup hdown 0
    omega
  rw [List.range_succ_eq_map, List.map_cons, sinceSeeding,
    List.dropWhile_cons_of_neg (by simpa using hseed)]

theorem historicalAverage_growing (hup : 0 < up) (hdown : 0 < down) {count : Nat}
    (hcount : count ≤ last) :
    historicalAverage ((List.range (count + 1)).map (growing up down last)) =
      smoothAll alpha (growing up down last 0)
        ((List.range count).map fun index =>
          ((up : ℚ) / down) ^ (index + 1) * growing up down last 0) := by
  rw [historicalAverage, sinceSeeding_growing hup hdown, List.range_succ_eq_map, List.map_cons]
  dsimp only
  rw [List.map_map, List.map_map]
  congr 1
  refine List.map_congr_left fun index hindex => ?_
  exact cast_growing hdown (Nat.le_trans (List.mem_range.mp hindex) hcount)

theorem exists_spike (hdown : 0 < down) (hfaster : 4 * down < 3 * up) :
    ∃ count, 8 / 3 * historicalAverage
        ((List.range (count + 1)).map (growing up down (count + 1))) <
      growing up down (count + 1) (count + 1) := by
  have hup : 0 < up := by omega
  have hdownCast : (0 : ℚ) < down := by exact_mod_cast hdown
  have hfasterCast : (4 : ℚ) * down < 3 * up := by exact_mod_cast hfaster
  have hgap : (0 : ℚ) < 5 * up - 4 * down := by linarith
  let growth : ℚ := up / down
  let part : ℚ := up / (5 * up - 4 * down)
  have hgrowth : 4 / 3 < growth := by
    rw [lt_div_iff₀ hdownCast]
    linarith
  have hpart : part * (growth - (1 - alpha)) = alpha * growth := by
    rw [one_sub_alpha, alpha]
    simp only [part, growth]
    field_simp
    rw [mul_comm (up : ℚ) 5, div_self hgap.ne']
  have hpartPos : 0 < part := div_pos (by exact_mod_cast hup) hgap
  have hpartLt : 8 / 3 * part < growth := by
    have hproduct : part * (5 * growth - 4) = growth := by
      rw [one_sub_alpha, alpha] at hpart
      linarith
    nlinarith
  have hroom : 0 < 3 / 8 * (growth - 8 / 3 * part) := by linarith
  obtain ⟨count, hcount⟩ := exists_pow_lt_of_lt_one hroom (by norm_num : (3 / 5 : ℚ) < 1)
  refine ⟨count, ?_⟩
  have hfirst : (0 : ℚ) < growing up down (count + 1) 0 := by
    have := @growing_pos up down (count + 1) hup hdown 0
    exact_mod_cast (by omega : 0 < growing up down (count + 1) 0)
  have hpower : 0 < growth ^ count := pow_pos (by linarith) count
  have hdecay : (4 / 5 : ℚ) ^ count ≤ (3 / 5) ^ count * growth ^ count := by
    rw [← mul_pow]
    exact pow_le_pow_left₀ (by norm_num) (by linarith) count
  have hshare : (4 / 5 : ℚ) ^ count * (1 - part) ≤ (3 / 5) ^ count * growth ^ count := by
    have hnonneg : (0 : ℚ) ≤ (4 / 5) ^ count := by positivity
    nlinarith
  rw [historicalAverage_growing hup hdown (Nat.le_succ count), smoothAll_geometric hpart,
    one_sub_alpha, cast_growing hdown le_rfl]
  change 8 / 3 * (part * growth ^ count * _ + (4 / 5) ^ count * (1 - part) * _) <
    growth ^ (count + 1) * _
  calc 8 / 3 * (part * growth ^ count * (growing up down (count + 1) 0 : ℚ) +
          (4 / 5) ^ count * (1 - part) * growing up down (count + 1) 0)
      = 8 / 3 * (part * growth ^ count + (4 / 5) ^ count * (1 - part)) *
          growing up down (count + 1) 0 := by ring
    _ < growth ^ (count + 1) * growing up down (count + 1) 0 := by
        refine mul_lt_mul_of_pos_right ?_ hfirst
        have hscaled := mul_lt_mul_of_pos_right hcount hpower
        rw [pow_succ]
        linarith

end Growing

/--
While the counts since seeding grow by no more than a third each second, no
alert is published, however high they get; and a third is the limit: at every
faster constant rate some run gets an alert.
-/
theorem slow_growth_silent :
    (∀ counts : List Nat, GrowsSlowly (sinceSeeding counts) →
      ∀ published ∈ (Evaluator.start.evaluate counts).2, published = none) ∧
      ∀ up down : Nat, 0 < down → 4 * down < 3 * up →
        ∃ counts : List Nat,
          (counts.IsChain fun first second => down * second = up * first) ∧
          ∃ alert, some alert ∈ (Evaluator.start.evaluate counts).2 := by
  refine ⟨fun counts => mem_evaluate_growing rfl, fun up down hdown hfaster => ?_⟩
  obtain ⟨count, hspike⟩ := exists_spike hdown hfaster
  have hup : 0 < up := by omega
  refine ⟨(List.range (count + 2)).map (growing up down (count + 1)), ?_, ?_⟩
  · rw [List.isChain_map, List.isChain_range_succ]
    exact fun second hlt => growing_succ hlt
  · have hindex : ((List.range (count + 2)).map (growing up down (count + 1)))[count + 1]? =
        some (growing up down (count + 1) (count + 1)) := by simp
    have htake : ((List.range (count + 2)).map (growing up down (count + 1))).take (count + 1) =
        (List.range (count + 1)).map (growing up down (count + 1)) := by
      rw [← List.map_take, List.take_range, min_eq_left (Nat.le_succ _)]
    have hpublished := (publishes_after_iff
      ((List.range (count + 1)).map (growing up down (count + 1)))
      (growing up down (count + 1) (count + 1))).mpr
      ⟨by simp [sinceSeeding_growing hup hdown], growing_pos hup hdown _, hspike⟩
    obtain ⟨alert, halert⟩ := Option.isSome_iff_exists.mp hpublished
    refine ⟨alert, List.mem_iff_getElem?.mpr ⟨count + 1, ?_⟩⟩
    rw [Evaluator.evaluate_getElem?, hindex, htake, Option.map_some, ← halert]
    rfl

theorem slow_growth_silent_thirds :
    (∀ published ∈ (Evaluator.start.evaluate [0, 300, 400, 533, 710, 946, 1254]).2,
        published = none) ∧
      ∃ counts : List Nat, (counts.IsChain fun first second => 1 * second = 2 * first) ∧
        ∃ alert, some alert ∈ (Evaluator.start.evaluate counts).2 :=
  ⟨slow_growth_silent.1 _ (by decide), slow_growth_silent.2 2 1 (by decide) (by decide)⟩

end NexPulse.Anomaly
