import Mathlib.Algebra.Field.Rat
import Mathlib.Algebra.Order.Ring.Rat

/-!
# The spike detector

`RecordEvent` raises an atomic counter; once a second the evaluator takes the
counter and resets it.  Until the first positive count the evaluator overwrites
its average; from then on it folds each count into the average and compares the
count with the result.  Floating point is replaced by exact rationals.
-/

namespace NexPulse.Anomaly

def alpha : ℚ := 1 / 5

structure Evaluator where
  currentEMA : ℚ
  initialized : Bool
  deriving DecidableEq

structure SpikeAlert where
  currentRPS : Int
  ema : ℚ
  deriving DecidableEq

namespace Evaluator

def start : Evaluator := ⟨0, false⟩

/-- The body of the evaluator's loop, once `rps` has been taken from the counter. -/
def tick (evaluator : Evaluator) (rps : Int) : Evaluator × Option SpikeAlert :=
  if !evaluator.initialized then
    ({ currentEMA := rps, initialized := evaluator.initialized || decide (rps > 0) }, none)
  else
    let ema := alpha * rps + (1 - alpha) * evaluator.currentEMA
    ({ evaluator with currentEMA := ema },
      if (rps : ℚ) > ema * 2 ∧ rps > 100 then some ⟨rps, ema⟩ else none)

def evaluate : Evaluator → List Nat → Evaluator × List (Option SpikeAlert)
  | evaluator, [] => (evaluator, [])
  | evaluator, count :: counts =>
      let first := evaluator.tick count
      let rest := evaluate first.1 counts
      (rest.1, first.2 :: rest.2)

end Evaluator

/-- The process as it stands between two atomic operations on `currentSecondEvents`. -/
structure Detector where
  currentSecondEvents : BitVec 64
  evaluator : Evaluator

namespace Detector

def start : Detector := ⟨0, .start⟩

def recordEvent (detector : Detector) : Detector :=
  { detector with currentSecondEvents := detector.currentSecondEvents + 1 }

def record (method : String) (detector : Detector) : Nat × Detector :=
  if method ≠ "POST" then (405, detector) else (204, detector.recordEvent)

def rps (detector : Detector) : Int := detector.currentSecondEvents.toInt

def tick (detector : Detector) : Detector × Option SpikeAlert :=
  let evaluated := detector.evaluator.tick detector.rps
  (⟨0, evaluated.1⟩, evaluated.2)

end Detector

end NexPulse.Anomaly
