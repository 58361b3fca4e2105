import NexPulse.Anomaly.Detector
import NexPulse.Foundation.ExponentialAverage
import NexPulse.Foundation.Pool
import Mathlib.Algebra.Order.Field.Rat
import Mathlib.Data.List.Count
import Mathlib.Tactic.NormNum

/-!
# What counts as a spike

The historical average is the exponential average of the counts from the first
positive one on.  The evaluator compares a count with the average that already
contains it, which is to compare it with 8/3 of the historical average.
-/

namespace NexPulse.Anomaly

open NexPulse.Foundation

def sinceSeeding (counts : List Nat) : List Nat := counts.dropWhile fun count => count = 0

def historicalAverage (counts : List Nat) : ℚ :=
  match sinceSeeding counts with
  | [] => 0
  | seed :: counts => smoothAll alpha seed (counts.map Nat.cast)

def after (counts : List Nat) : Evaluator := (Evaluator.start.evaluate counts).1

theorem alpha_nonneg : 0 ≤ alpha := by norm_num [alpha]

theorem alpha_le_one : alpha ≤ 1 := by norm_num [alpha]

namespace Evaluator

variable {evaluator : Evaluator}

theorem evaluate_append (evaluator : Evaluator) (first second : List Nat) :
    evaluator.evaluate (first ++ second) =
      (((evaluator.evaluate first).1.evaluate second).1,
        (evaluator.evaluate first).2 ++ ((evaluator.evaluate first).1.evaluate second).2) := by
  induction first generalizing evaluator with
  | nil => rfl
  | cons count counts ih => simp [evaluate, ih]

theorem tick_initialized (h : evaluator.initialized = true) (rps : Int) :
    (evaluator.tick rps).1 = ⟨smooth alpha rps evaluator.currentEMA, true⟩ := by
  simp [tick, h, smooth]

theorem tick_uninitialized (h : evaluator.initialized = false) (rps : Int) :
    evaluator.tick rps = (⟨rps, decide (rps > 0)⟩, none) := by
  simp [tick, h]

theorem evaluate_initialized (h : evaluator.initialized = true) (counts : List Nat) :
    (evaluator.evaluate counts).1 =
      ⟨smoothAll alpha evaluator.currentEMA (counts.map Nat.cast), true⟩ := by
  induction counts generalizing evaluator with
  | nil =>
      cases evaluator
      cases h
      rfl
  | cons count counts ih =>
      have hfirst := tick_initialized h count
      rw [evaluate, ih (congrArg initialized hfirst), hfirst]
      simp

theorem evaluate_zeros (count : Nat) :
    start.evaluate (List.replicate count 0) = (start, List.replicate count none) := by
  induction count with
  | zero => rfl
  | succ count ih =>
      have hfirst : start.tick ((0 : Nat) : Int) = (start, none) := rfl
      rw [List.replicate_succ, evaluate, hfirst, ih]
      rfl

theorem publishes_iff (rps : Int) :
    ((evaluator.tick rps).2.isSome = true) ↔
      evaluator.initialized = true ∧ 100 < rps ∧ 8 / 3 * evaluator.currentEMA < rps := by
  cases hinitialized : evaluator.initialized with
  | false => simp [tick_uninitialized hinitialized]
  | true =>
      have hcompare : smooth alpha (rps : ℚ) evaluator.currentEMA * 2 < rps ↔
          2 * (1 - alpha) / (1 - 2 * alpha) * evaluator.currentEMA < rps :=
        smooth_mul_lt_iff (by norm_num [alpha])
      have hratio : 2 * (1 - alpha) / (1 - 2 * alpha) = 8 / 3 := by norm_num [alpha]
      rw [hratio, smooth] at hcompare
      simp [tick, hinitialized, hcompare, and_comm]

end Evaluator

/-! ## The historical average -/

theorem after_eq (counts : List Nat) :
    after counts = ⟨historicalAverage counts, !(sinceSeeding counts).isEmpty⟩ := by
  induction counts with
  | nil => rfl
  | cons count counts ih =>
      cases count with
      | zero => exact ih
      | succ count =>
          have hseed : (Evaluator.start.tick (count + 1 : Nat)).1 = ⟨(count + 1 : Nat), true⟩ := by
            rw [Evaluator.tick_uninitialized rfl]
            simp
          have hsince : sinceSeeding ((count + 1) :: counts) = (count + 1) :: counts := by
            simp [sinceSeeding]
          rw [after, Evaluator.evaluate, hseed, Evaluator.evaluate_initialized rfl]
          simp [historicalAverage, hsince]

theorem initialized_after {counts : List Nat} :
    (after counts).initialized = true ↔ sinceSeeding counts ≠ [] := by
  simp [after_eq]

section Envelope

variable {counts : List Nat} {low high : ℚ}

theorem le_historicalAverage (hseeded : sinceSeeding counts ≠ [])
    (h : ∀ count ∈ sinceSeeding counts, low ≤ count) : low ≤ historicalAverage counts := by
  unfold historicalAverage
  cases hsince : sinceSeeding counts with
  | nil => contradiction
  | cons seed rest =>
      rw [hsince] at h
      obtain ⟨hseed, hrest⟩ := List.forall_mem_cons.mp h
      refine le_smoothAll alpha_nonneg alpha_le_one hseed ?_
      simpa using hrest

theorem historicalAverage_le (hseeded : sinceSeeding counts ≠ [])
    (h : ∀ count ∈ sinceSeeding counts, (count : ℚ) ≤ high) : historicalAverage counts ≤ high := by
  unfold historicalAverage
  cases hsince : sinceSeeding counts with
  | nil => contradiction
  | cons seed rest =>
      rw [hsince] at h
      obtain ⟨hseed, hrest⟩ := List.forall_mem_cons.mp h
      refine smoothAll_le alpha_nonneg alpha_le_one hseed ?_
      simpa using hrest

theorem historicalAverage_nonneg (counts : List Nat) : 0 ≤ historicalAverage counts := by
  by_cases hseeded : sinceSeeding counts = []
  · simp [historicalAverage, hseeded]
  · exact le_historicalAverage hseeded fun count _ => Nat.cast_nonneg count

end Envelope

/-! ## The comparison -/

theorem publishes_after_iff (counts : List Nat) (rps : Nat) :
    (((after counts).tick rps).2.isSome = true) ↔
      sinceSeeding counts ≠ [] ∧ 100 < rps ∧ 8 / 3 * historicalAverage counts < rps := by
  rw [Evaluator.publishes_iff, initialized_after, after_eq]
  simp

/--
At a tick with a seeded average, an alert is published exactly for the counts
over 100 and over twice the historical average, if and only if the count is not
one of those above twice the average and up to 8/3 of it.
-/
theorem spike_iff_outside_gap (counts : List Nat) (rps : Nat)
    (hseeded : (after counts).initialized = true) :
    ((((after counts).tick rps).2.isSome = true) ↔
        100 < rps ∧ 2 * historicalAverage counts < rps) ↔
      (rps ≤ 100 ∨ (rps : ℚ) ≤ 2 * historicalAverage counts ∨
        8 / 3 * historicalAverage counts < rps) := by
  have hnonneg := historicalAverage_nonneg counts
  rw [publishes_after_iff, and_iff_right (initialized_after.mp hseeded)]
  by_cases hnoise : 100 < rps
  · have hbeyond : 8 / 3 * historicalAverage counts < rps →
        2 * historicalAverage counts < rps := fun hlt => by linarith
    rw [and_iff_right hnoise, and_iff_right hnoise, or_iff_right (not_le.mpr hnoise), ← not_lt]
    tauto
  · simp [hnoise, not_lt.mp hnoise]

theorem spike_iff_outside_gap_doubled :
    ((((after [100]).tick (300 : Nat)).2.isSome = true) ↔
      100 < 300 ∧ 2 * historicalAverage [100] < (300 : Nat)) :=
  (spike_iff_outside_gap [100] 300 rfl).mpr (by decide +kernel)

theorem spike_missed :
    (after [100]).initialized = true ∧ 100 < 250 ∧
      2 * historicalAverage [100] < (250 : Nat) ∧
      ((after [100]).tick (250 : Nat)).2 = none := by
  decide +kernel

/-! ## Stretches that do not increase -/

namespace Evaluator

variable {evaluator : Evaluator}

theorem evaluate_getElem? (evaluator : Evaluator) (counts : List Nat) (index : Nat) :
    (evaluator.evaluate counts).2[index]? =
      counts[index]?.map fun count : Nat =>
        ((evaluator.evaluate (counts.take index)).1.tick count).2 := by
  induction counts generalizing evaluator index with
  | nil => rfl
  | cons count counts ih =>
      cases index with
      | zero => rfl
      | succ index => simpa [evaluate] using ih _ index

theorem tick_covers {rest : ℚ} {low count : Nat} (hrest : 0 ≤ rest) (hcount : low ≤ count)
    (hcover : (1 - rest) * low ≤ evaluator.currentEMA) :
    (1 - (1 - alpha) * rest) * low ≤ (evaluator.tick count).1.currentEMA := by
  have hlow : (low : ℚ) ≤ count := Nat.cast_le.mpr hcount
  cases hinitialized : evaluator.initialized with
  | true =>
      rw [tick_initialized hinitialized]
      simpa using smooth_covers alpha_nonneg alpha_le_one hlow hcover
  | false =>
      have hpart : (1 - (1 - alpha) * rest) * low ≤ low := by
        have hshare : 0 ≤ (1 - alpha) * rest := mul_nonneg (sub_nonneg.mpr alpha_le_one) hrest
        nlinarith [Nat.cast_nonneg (α := ℚ) low]
      rw [tick_uninitialized hinitialized]
      simpa using hpart.trans hlow

theorem evaluate_covers {low : Nat} {counts : List Nat} (hcounts : ∀ count ∈ counts, low ≤ count)
    {rest : ℚ} (hrest : 0 ≤ rest) (hcover : (1 - rest) * low ≤ evaluator.currentEMA) :
    (1 - (1 - alpha) ^ counts.length * rest) * low ≤
      (evaluator.evaluate counts).1.currentEMA := by
  induction counts generalizing evaluator rest with
  | nil => simpa [evaluate] using hcover
  | cons count counts ih =>
      obtain ⟨hfirst, hothers⟩ := List.forall_mem_cons.mp hcounts
      have hshrunk : 0 ≤ (1 - alpha) * rest := mul_nonneg (sub_nonneg.mpr alpha_le_one) hrest
      have hnext := ih hothers hshrunk (tick_covers hrest hfirst hcover)
      rwa [← mul_assoc, ← pow_succ] at hnext

theorem index_lt_of_publishes {counts : List Nat} {count : Nat} (hema : 0 ≤ evaluator.currentEMA)
    (hcounts : ∀ earlier ∈ counts, count ≤ earlier)
    (halert : ((evaluator.evaluate counts).1.tick count).2.isSome = true) : counts.length < 3 := by
  by_contra hlate
  obtain ⟨-, hnoise, hspike⟩ := (publishes_iff count).mp halert
  have hcover := evaluate_covers hcounts zero_le_one (by simpa using hema)
  have hpower : (1 - alpha) ^ counts.length ≤ (1 - alpha) ^ 3 :=
    pow_le_pow_of_le_one (by norm_num [alpha]) (by norm_num [alpha]) (not_lt.mp hlate)
  have hpositive : (0 : ℚ) < count := by
    have : 0 < count := by omega
    exact_mod_cast this
  have hcube : (1 - alpha) ^ 3 = 64 / 125 := by norm_num [alpha]
  rw [hcube] at hpower
  rw [mul_one] at hcover
  simp only [Int.cast_natCast] at hspike
  nlinarith

end Evaluator

theorem index_lt_of_alert {history stretch : List Nat} {index : Nat} {alert : SpikeAlert}
    (h : stretch.Pairwise (· ≥ ·))
    (halert : ((after history).evaluate stretch).2[index]? = some (some alert)) : index < 3 := by
  rw [Evaluator.evaluate_getElem?, Option.map_eq_some_iff] at halert
  obtain ⟨count, hcount, hpublished⟩ := halert
  have hema : 0 ≤ (after history).currentEMA := by
    rw [after_eq]
    exact historicalAverage_nonneg history
  have hearlier : ∀ earlier ∈ stretch.take index, count ≤ earlier := by
    rw [Pool.eq_take_append_cons_drop hcount, List.pairwise_append] at h
    exact fun earlier hmem => h.2.2 earlier hmem count List.mem_cons_self
  have hlt := Evaluator.index_lt_of_publishes hema hearlier (by rw [hpublished]; rfl)
  have hindex := (List.getElem?_eq_some_iff.mp hcount).1
  rwa [List.length_take, min_eq_left hindex.le] at hlt

/--
From every reachable state, a stretch of counts that does not increase publishes
alerts at its first three ticks at most.
-/
theorem alerts_stop (history stretch : List Nat) (h : stretch.Pairwise (· ≥ ·)) :
    (∀ index alert, ((after history).evaluate stretch).2[index]? = some (some alert) → index < 3) ∧
      ((after history).evaluate stretch).2.countP Option.isSome ≤ 3 := by
  refine ⟨fun index alert halert => index_lt_of_alert h halert, ?_⟩
  have hlate : (((after history).evaluate stretch).2.drop 3).countP Option.isSome = 0 := by
    refine List.countP_eq_zero.mpr fun published hmem hsome => ?_
    obtain ⟨index, hindex⟩ := List.mem_iff_getElem?.mp hmem
    obtain ⟨alert, rfl⟩ := Option.isSome_iff_exists.mp hsome
    rw [List.getElem?_drop] at hindex
    have hlt := index_lt_of_alert h hindex
    omega
  rw [← List.take_append_drop 3 ((after history).evaluate stretch).2, List.countP_append, hlate]
  exact List.countP_le_length.trans (List.length_take_le _ _)

theorem alerts_stop_jump :
    ((after [100]).evaluate (List.replicate 5 1000)).2.countP Option.isSome ≤ 3 :=
  (alerts_stop [100] (List.replicate 5 1000) (by decide)).2

/-! ## The envelope of the counts since seeding -/

theorem mem_evaluate {counts : List Nat} {published : Option SpikeAlert}
    (h : published ∈ (Evaluator.start.evaluate counts).2) :
    ∃ history rps rest, counts = history ++ rps :: rest ∧
      published = ((after history).tick (rps : Nat)).2 := by
  obtain ⟨index, hindex⟩ := List.mem_iff_getElem?.mp h
  rw [Evaluator.evaluate_getElem?, Option.map_eq_some_iff] at hindex
  obtain ⟨rps, hrps, rfl⟩ := hindex
  exact ⟨counts.take index, rps, counts.drop (index + 1), Pool.eq_take_append_cons_drop hrps, rfl⟩

theorem sinceSeeding_append {first second : List Nat} (h : sinceSeeding first ≠ []) :
    sinceSeeding (first ++ second) = sinceSeeding first ++ second := by
  rw [sinceSeeding, List.dropWhile_append, if_neg]
  · rfl
  · simpa [sinceSeeding] using h

theorem average_between {counts : List Nat} {least greatest : Nat}
    (hleast : (sinceSeeding counts).min? = some least)
    (hgreatest : (sinceSeeding counts).max? = some greatest) :
    (least : ℚ) ≤ (after counts).currentEMA ∧ (after counts).currentEMA ≤ greatest := by
  obtain ⟨hmem, hmin⟩ := List.min?_eq_some_iff.mp hleast
  obtain ⟨-, hmax⟩ := List.max?_eq_some_iff.mp hgreatest
  have hseeded : sinceSeeding counts ≠ [] := List.ne_nil_of_mem hmem
  rw [after_eq]
  exact ⟨le_historicalAverage hseeded fun count hcount => Nat.cast_le.mpr (hmin count hcount),
    historicalAverage_le hseeded fun count hcount => Nat.cast_le.mpr (hmax count hcount)⟩

theorem exceeds_least {counts : List Nat} {rps : Nat}
    (h : ((after counts).tick rps).2.isSome = true) :
    ∃ least ∈ (sinceSeeding counts).min?, 8 / 3 * (least : ℚ) < rps := by
  obtain ⟨hseeded, -, hspike⟩ := (publishes_after_iff counts rps).mp h
  obtain ⟨least, hleast⟩ := Option.isSome_iff_exists.mp (List.isSome_min?_of_ne_nil hseeded)
  obtain ⟨-, hmin⟩ := List.min?_eq_some_iff.mp hleast
  have hbelow : (least : ℚ) ≤ historicalAverage counts :=
    le_historicalAverage hseeded fun count hcount => Nat.cast_le.mpr (hmin count hcount)
  exact ⟨least, hleast, by linarith⟩

theorem silent_within_factor {counts : List Nat}
    (h : ∀ first ∈ sinceSeeding counts, ∀ second ∈ sinceSeeding counts,
      (first : ℚ) ≤ 8 / 3 * second) :
    ∀ published ∈ (Evaluator.start.evaluate counts).2, published = none := by
  intro published hmem
  obtain ⟨history, rps, rest, rfl, rfl⟩ := mem_evaluate hmem
  by_contra halert
  obtain ⟨least, hleast, hexceeds⟩ := exceeds_least (Option.ne_none_iff_isSome.mp halert)
  obtain ⟨hleastMem, -⟩ := List.min?_eq_some_iff.mp hleast
  rw [sinceSeeding_append (List.ne_nil_of_mem hleastMem)] at h
  have hwithin := h rps (List.mem_append_right _ List.mem_cons_self) least
    (List.mem_append_left _ hleastMem)
  exact absurd hexceeds (not_lt.mpr hwithin)

/--
The average lies between the extremes of the counts since seeding; an alert
needs a count beyond 8/3 of the smallest of them, so none is published while
the counts since seeding stay within that factor of each other; and seconds of
silence before a run publish nothing and change nothing.
-/
theorem average_envelope (counts : List Nat) :
    (∀ least ∈ (sinceSeeding counts).min?, ∀ greatest ∈ (sinceSeeding counts).max?,
      (least : ℚ) ≤ (after counts).currentEMA ∧ (after counts).currentEMA ≤ greatest) ∧
      (∀ rps : Nat, ((after counts).tick rps).2.isSome = true →
        ∃ least ∈ (sinceSeeding counts).min?, 8 / 3 * (least : ℚ) < rps) ∧
      ((∀ first ∈ sinceSeeding counts, ∀ second ∈ sinceSeeding counts,
          (first : ℚ) ≤ 8 / 3 * second) →
        ∀ published ∈ (Evaluator.start.evaluate counts).2, published = none) ∧
      ∀ zeros, Evaluator.start.evaluate (List.replicate zeros 0 ++ counts) =
        ((Evaluator.start.evaluate counts).1,
          List.replicate zeros none ++ (Evaluator.start.evaluate counts).2) := by
  refine ⟨fun least hleast greatest hgreatest => average_between hleast hgreatest,
    fun rps => exceeds_least, silent_within_factor, fun zeros => ?_⟩
  rw [Evaluator.evaluate_append, Evaluator.evaluate_zeros]

end NexPulse.Anomaly
