import Mathlib.Data.Int.Order.Basic
import Mathlib.Tactic.Linarith

/-!
# The load of the simulator

`main` divides the rate over the workers, corrects both where a worker would
get less than one event per second, and starts the workers; each of them opens
a ticker for its own share.  Both divisions are Go's: truncated, on 64 bits,
with a panic where the divisor is zero.
-/

namespace NexPulse.Simulator

inductive Panic where
  | divideByZero
  | nonPositiveInterval
  deriving DecidableEq

def quotient (dividend divisor : Int64) : Except Panic Int64 :=
  if divisor = 0 then .error .divideByZero else .ok (dividend / divisor)

/-- The package variable `workers` and the local variable `eventsPerWorker` of `main`. -/
structure Plan where
  workers : Int64
  eventsPerWorker : Int64
  deriving DecidableEq

def plan (rate workers : Int64) : Except Panic Plan := do
  let eventsPerWorker ← quotient rate workers
  -- If rate is less than workers, cap workers to rate.
  if eventsPerWorker < 1 then
    return ⟨rate, 1⟩
  return ⟨workers, eventsPerWorker⟩

/-- How often the loop `for i := 0; i < workers; i++` starts a worker. -/
def Plan.started (plan : Plan) : Nat := plan.workers.toInt.toNat

def second : Int64 := 1000000000

def newTicker (interval : Int64) : Except Panic Int64 :=
  if interval ≤ 0 then .error .nonPositiveInterval else .ok interval

def worker (rps : Int64) : Except Panic Int64 := do
  newTicker (← quotient second rps)

/-- What the flags ask for: nothing panics, and the shares of the workers add up to the rate. -/
def Generates (rate workers : Int64) : Prop :=
  ∃ main, plan rate workers = .ok main ∧
    (0 < main.started → ∃ interval, worker main.eventsPerWorker = .ok interval ∧ 0 < interval) ∧
    (main.started : Int) * main.eventsPerWorker.toInt = rate.toInt

/-! ## The two divisions -/

section Division

variable {rate workers rps : Int64}

theorem toInt_pos_iff {value : Int64} : 0 < value ↔ 0 < value.toInt := by
  rw [Int64.lt_iff_toInt_lt, Int64.toInt_zero]

theorem lt_one_iff {value : Int64} : value < 1 ↔ value.toInt < 1 := by
  rw [Int64.lt_iff_toInt_lt, Int64.toInt_one]

theorem toInt_div_of_pos (hrate : 0 < rate.toInt) :
    (rate / workers).toInt = rate.toInt.tdiv workers.toInt := by
  refine Int64.toInt_div_of_ne_left rate workers ?_
  rintro rfl
  exact absurd hrate (by decide)

theorem tdiv_lt_one_iff {dividend divisor : Int} (h : 0 < dividend) :
    dividend.tdiv divisor < 1 ↔ divisor ≤ 0 ∨ dividend < divisor := by
  rcases lt_trichotomy divisor 0 with hneg | rfl | hpos
  · have hquotient : dividend.tdiv divisor = -(dividend / -divisor) := by
      rw [← Int.tdiv_eq_ediv_of_nonneg h.le, Int.tdiv_neg, neg_neg]
    have hnonneg : 0 ≤ dividend / -divisor := Int.ediv_nonneg h.le (by omega)
    omega
  · simp
  · have hquotient : dividend.tdiv divisor < 1 ↔ dividend < divisor := by
      rw [Int.tdiv_eq_ediv_of_nonneg h.le, Int.ediv_lt_iff_lt_mul hpos, one_mul]
    rw [hquotient]
    omega

theorem worker_ok_iff (h : 1 ≤ rps.toInt) :
    (∃ interval, worker rps = .ok interval ∧ 0 < interval) ↔ rps.toInt ≤ second.toInt := by
  have hrps : rps ≠ 0 := by
    rintro rfl
    exact absurd h (by decide)
  have hdiv : (second / rps).toInt = second.toInt / rps.toInt := by
    rw [toInt_div_of_pos (by decide), Int.tdiv_eq_ediv_of_nonneg (by decide)]
  have hinterval : 0 < second / rps ↔ rps.toInt ≤ second.toInt := by
    rw [toInt_pos_iff, hdiv, Int.lt_iff_add_one_le, zero_add,
      Int.le_ediv_iff_mul_le (by omega), one_mul]
  have hworker : worker rps = newTicker (second / rps) := by
    simp [worker, quotient, hrps, bind, Except.bind]
  rw [hworker, newTicker, ← hinterval]
  by_cases hpos : 0 < second / rps
  · rw [if_neg (Int64.not_le.mpr hpos)]
    exact iff_of_true ⟨_, rfl, hpos⟩ hpos
  · rw [if_pos (Int64.not_lt.mp hpos)]
    exact iff_of_false (by simp) hpos

end Division

/-! ## The plan -/

section Plan

variable {rate workers : Int64}

theorem plan_zero (rate : Int64) : plan rate 0 = .error .divideByZero := rfl

theorem plan_capped (hworkers : workers ≠ 0) (h : rate / workers < 1) :
    plan rate workers = .ok ⟨rate, 1⟩ := by
  simp [plan, quotient, hworkers, h, bind, Except.bind, pure, Except.pure]

theorem plan_shared (hworkers : workers ≠ 0) (h : ¬ rate / workers < 1) :
    plan rate workers = .ok ⟨workers, rate / workers⟩ := by
  simp [plan, quotient, hworkers, h, bind, Except.bind, pure, Except.pure]

@[simp] theorem started_mk (workers eventsPerWorker : Int64) :
    (Plan.mk workers eventsPerWorker).started = workers.toInt.toNat := rfl

theorem generates_capped (hrate : 1 ≤ rate.toInt) (hworkers : workers ≠ 0)
    (h : rate / workers < 1) : Generates rate workers := by
  have hticker : ∃ interval, worker 1 = .ok interval ∧ 0 < interval :=
    (worker_ok_iff (by decide)).mpr (by decide)
  refine ⟨⟨rate, 1⟩, plan_capped hworkers h, fun _ => hticker, ?_⟩
  rw [started_mk, Int.toNat_of_nonneg (by omega), Int64.toInt_one, mul_one]

theorem generates_shared_iff (hrate : 1 ≤ rate.toInt) (hpos : 0 < workers.toInt)
    (hle : workers.toInt ≤ rate.toInt) :
    Generates rate workers ↔
      workers.toInt ∣ rate.toInt ∧ rate.toInt ≤ workers.toInt * second.toInt := by
  have hworkers : workers ≠ 0 := by
    rintro rfl
    exact absurd hpos (by decide)
  have hdiv : (rate / workers).toInt = rate.toInt / workers.toInt := by
    rw [toInt_div_of_pos (by omega), Int.tdiv_eq_ediv_of_nonneg (by omega)]
  have hshare : 1 ≤ (rate / workers).toInt := by
    rwa [hdiv, Int.le_ediv_iff_mul_le hpos, one_mul]
  have hplan : plan rate workers = .ok ⟨workers, rate / workers⟩ := by
    refine plan_shared hworkers ?_
    rw [lt_one_iff]
    omega
  constructor
  · rintro ⟨main, hmain, hticker, hload⟩
    obtain rfl : Plan.mk workers (rate / workers) = main := by simpa [hplan] using hmain
    rw [started_mk, Int.toNat_of_nonneg hpos.le, hdiv] at hload
    have hdvd : workers.toInt ∣ rate.toInt := ⟨_, hload.symm⟩
    have hfast := (worker_ok_iff hshare).mp (hticker (by rw [started_mk]; omega))
    rw [hdiv, Int.ediv_le_iff_of_dvd_of_pos hpos hdvd] at hfast
    exact ⟨hdvd, hfast⟩
  · rintro ⟨hdvd, hfast⟩
    refine ⟨_, hplan, fun _ => (worker_ok_iff hshare).mpr ?_, ?_⟩
    · rwa [hdiv, Int.ediv_le_iff_of_dvd_of_pos hpos hdvd]
    · rw [started_mk, Int.toNat_of_nonneg hpos.le, hdiv]
      exact Int.mul_ediv_cancel' hdvd

end Plan

/--
The flags get what they ask for exactly when the workers are negative, more than
the events, or divide them into shares of at most one event per nanosecond.
-/
theorem generates_iff {rate workers : Int64} (hrate : 1 ≤ rate.toInt) :
    Generates rate workers ↔
      workers.toInt < 0 ∨ rate.toInt < workers.toInt ∨
        0 < workers.toInt ∧ workers.toInt ∣ rate.toInt ∧
          rate.toInt ≤ workers.toInt * 1000000000 := by
  have hquotient : rate / workers < 1 ↔ workers.toInt ≤ 0 ∨ rate.toInt < workers.toInt := by
    rw [lt_one_iff, toInt_div_of_pos (by omega), tdiv_lt_one_iff (by omega)]
  rcases lt_trichotomy workers.toInt 0 with hneg | hzero | hpos
  · have hworkers : workers ≠ 0 := by
      rintro rfl
      exact absurd hneg (by decide)
    exact iff_of_true (generates_capped hrate hworkers (hquotient.mpr (.inl hneg.le))) (.inl hneg)
  · obtain rfl : workers = 0 := Int64.toInt_inj.mp hzero
    refine iff_of_false ?_ ?_
    · rintro ⟨main, hmain, -⟩
      simp [plan_zero] at hmain
    · rw [Int64.toInt_zero]
      omega
  · by_cases hmany : rate.toInt < workers.toInt
    · have hworkers : workers ≠ 0 := by
        rintro rfl
        exact absurd hpos (by decide)
      exact iff_of_true (generates_capped hrate hworkers (hquotient.mpr (.inr hmany)))
        (.inr (.inl hmany))
    · have hsecond : second.toInt = 1000000000 := by decide
      rw [generates_shared_iff hrate hpos (not_lt.mp hmany), hsecond]
      constructor
      · rintro ⟨hdvd, hfast⟩
        exact .inr (.inr ⟨hpos, hdvd, hfast⟩)
      · rintro (hneg | hmore | ⟨-, hdvd, hfast⟩)
        · omega
        · exact absurd hmore hmany
        · exact ⟨hdvd, hfast⟩

theorem generates_default : Generates 100 10 :=
  (generates_iff (by decide)).mpr (.inr (.inr (by decide)))

theorem not_generates_thirty_workers : ¬ Generates 100 30 := by
  rintro ⟨main, hmain, -, hload⟩
  have hplan : plan 100 30 = .ok ⟨30, 3⟩ := by decide
  obtain rfl : Plan.mk 30 3 = main := by simpa [hplan] using hmain
  exact absurd hload (by decide)

end NexPulse.Simulator
