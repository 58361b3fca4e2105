import NexPulse.RateLimit.Exact

/-!
# Steady clients and pauses

A client that calls at equal distances finds at each call as many readings as
fit into the window, from its second window on always the same number: it is
let through for ever, or for its first calls only.  The calls before a pause of
one window leave no trace in the verdicts after it.
-/

namespace NexPulse.RateLimit

open NexPulse.Foundation NexPulse.Foundation.Redis

def steady (start spacing : Int) (count : Nat) : List Int :=
  (List.range count).map fun (index : Nat) => start + index * spacing

section Steady

variable {start spacing window : Int}

theorem steady_pairwise (start : Int) (hspacing : 0 < spacing) (count : Nat) :
    (steady start spacing count).Pairwise (· < ·) := by
  refine List.Pairwise.map _ ?_ List.pairwise_lt_range
  intro first second hlt
  have hless : (first : Int) * spacing < second * spacing :=
    Int.mul_lt_mul_of_pos_right (Int.ofNat_lt.mpr hlt) hspacing
  omega

theorem steady_nonneg (hstart : 0 ≤ start) (hspacing : 0 < spacing) (count : Nat) :
    ∀ reading ∈ steady start spacing count, 0 ≤ reading := by
  intro reading hmem
  obtain ⟨index, -, rfl⟩ := List.mem_map.mp hmem
  have hoffset : 0 ≤ (index : Int) * spacing := Int.mul_nonneg (Int.natCast_nonneg _) hspacing.le
  omega

theorem take_steady {count index : Nat} (h : index ≤ count) :
    (steady start spacing count).take index = steady start spacing index := by
  rw [steady, ← List.map_take, List.take_range, min_eq_left h, steady]

theorem countP_range_within (count reach : Nat) :
    (List.range count).countP (fun index => count - index ≤ reach) = min count reach := by
  induction count with
  | zero => simp
  | succ count ih =>
      have hshift : (List.range count).countP
          ((fun index => decide (count + 1 - index ≤ reach)) ∘ Nat.succ) =
            (List.range count).countP fun index => count - index ≤ reach := by
        refine List.countP_congr fun index _ => ?_
        simp only [Function.comp_apply, decide_eq_true_iff]
        omega
      rw [List.range_succ_eq_map, List.countP_cons, List.countP_map, hshift, ih]
      by_cases hreach : count + 1 ≤ reach
      · simp [hreach]
        omega
      · simp [hreach]
        omega

theorem countP_steady (hspacing : 0 < spacing) (hwindow : 0 < window) (index : Nat) :
    (steady start spacing index).countP (fun reading =>
        start + index * spacing - window < reading ∧ reading < start + index * spacing) =
      min index ((window - 1) / spacing).toNat := by
  rw [← countP_range_within, steady, List.countP_map]
  refine List.countP_congr fun earlier hearlier => ?_
  have hlt : earlier < index := List.mem_range.mp hearlier
  have hreach : 0 ≤ (window - 1) / spacing := Int.ediv_nonneg (by omega) hspacing.le
  have hdistance : (index : Int) * spacing - earlier * spacing = ((index - earlier : Nat) : Int) *
      spacing := by
    rw [← Int.sub_mul]
    congr 1
    omega
  have hpositive : 0 < ((index - earlier : Nat) : Int) * spacing :=
    Int.mul_pos (by omega) hspacing
  have hwithin : ((index - earlier : Nat) : Int) ≤ (window - 1) / spacing ↔
      ((index - earlier : Nat) : Int) * spacing ≤ window - 1 := Int.le_ediv_iff_mul_le hspacing
  simp only [Function.comp_apply, decide_eq_true_iff]
  omega

end Steady

/--
A client that calls every `spacing` nanoseconds is let through at a call if and
only if it is one of its first `limit` calls or `limit` calls at this distance
span the window: at a higher rate it is locked out for as long as it goes on.
-/
theorem steady_verdict (userID : String) (limit : Int) {seconds start spacing : Int}
    (hseconds : 1 ≤ seconds) (hstart : 0 ≤ start) (hspacing : 0 < spacing) {db : Db}
    (hnew : db (userKey userID) = none) {count index : Nat} (hindex : index < count) :
    (serve userID limit (seconds * nanosecondsPerSecond) (steady start spacing count) db)[index]? =
        some (start + index * spacing, .ok true) ↔
      (index : Int) < limit ∨ seconds * nanosecondsPerSecond ≤ limit * spacing := by
  have hwindow : 0 < seconds * nanosecondsPerSecond := by
    unfold nanosecondsPerSecond
    omega
  have hreading : (steady start spacing count)[index]? = some (start + index * spacing) := by
    simp [steady, hindex]
  have hreach : 0 ≤ (seconds * nanosecondsPerSecond - 1) / spacing :=
    Int.ediv_nonneg (by omega) hspacing.le
  have hspan : (seconds * nanosecondsPerSecond - 1) / spacing < limit ↔
      seconds * nanosecondsPerSecond - 1 < limit * spacing := Int.ediv_lt_iff_lt_mul hspacing
  rw [admitted_iff_few_sent userID hseconds (steady_pairwise start hspacing count)
    (steady_nonneg hstart hspacing count) hnew hreading, take_steady hindex.le,
    countP_steady hspacing hwindow]
  omega

theorem steady_verdict_locked_out :
    ¬ ((serve "alice" 2 (1 * nanosecondsPerSecond) (steady 0 333333333 9) fun _ => none)[8]? =
      some (2666666664, .ok true)) :=
  (steady_verdict "alice" 2 (by decide) (by decide) (by decide) rfl (by decide)).not.mpr
    (by decide)

/-! ## Pauses -/

section Pause

variable {userID : String} {limit window : Int} {earlier later : List Int} {db : Db}

theorem length_serveWith (before : Int → Db → Db) (userID : String) (limit window : Int)
    (readings : List Int) (db : Db) :
    (serveWith before userID limit window readings db).length = readings.length := by
  induction readings generalizing db with
  | nil => rfl
  | cons now readings ih => exact congrArg Nat.succ (ih _)

theorem windowReadings_forget {now : Int} (recent : List Int)
    (hpause : ∀ last ∈ earlier, last + window ≤ now) :
    windowReadings window now (earlier ++ recent) = windowReadings window now recent := by
  ext reading
  simp only [windowReadings, Finset.mem_filter, Finset.mem_insert, List.mem_toFinset,
    List.mem_append]
  constructor
  · rintro ⟨hself | hearlier | hrecent, hwithin⟩
    · exact ⟨.inl hself, hwithin⟩
    · have hold := hpause reading hearlier
      omega
    · exact ⟨.inr hrecent, hwithin⟩
  · rintro ⟨hself | hrecent, hwithin⟩
    · exact ⟨.inl hself, hwithin⟩
    · exact ⟨.inr (.inr hrecent), hwithin⟩

/--
After a pause of one window the verdicts are those given to a new user, whatever
was called, admitted or rejected before it.
-/
theorem verdicts_forget (userID : String) (limit : Int) {seconds : Int} (hseconds : 1 ≤ seconds)
    (hsorted : (earlier ++ later).Pairwise (· ≤ ·))
    (hnonneg : ∀ reading ∈ earlier ++ later, 0 ≤ reading)
    (hpause : ∀ last ∈ earlier, ∀ now ∈ later, last + seconds * nanosecondsPerSecond ≤ now)
    (hnew : db (userKey userID) = none) :
    (serve userID limit (seconds * nanosecondsPerSecond) (earlier ++ later) db).drop
        earlier.length =
      serve userID limit (seconds * nanosecondsPerSecond) later fun _ => none := by
  obtain ⟨-, hlater, -⟩ := List.pairwise_append.mp hsorted
  refine List.ext_getElem? fun index => ?_
  rw [List.getElem?_drop]
  cases hindex : later[index]? with
  | none =>
      have hlong : later.length ≤ index := List.getElem?_eq_none_iff.mp hindex
      rw [List.getElem?_eq_none, List.getElem?_eq_none]
      · rw [serve, length_serveWith]
        exact hlong
      · rw [serve, length_serveWith, List.length_append]
        omega
  | some now =>
      have hboth : (earlier ++ later)[earlier.length + index]? = some now := by
        rwa [List.getElem?_append_right (Nat.le_add_right _ _), Nat.add_sub_cancel_left]
      have hnow : now ∈ later := List.mem_of_getElem? hindex
      rw [verdict_exact userID limit hseconds hsorted hnonneg hnew hboth,
        verdict_exact userID limit hseconds hlater
          (fun reading hmem => hnonneg reading (List.mem_append_right _ hmem)) rfl hindex,
        List.take_length_add_append, windowReadings_forget _ fun last hlast =>
          hpause last hlast now hnow]

theorem verdicts_forget_locked_out :
    (serve "alice" 1 (1 * nanosecondsPerSecond)
        ([0, 250000000, 500000000, 750000000] ++ [1750000000, 2000000000]) fun _ => none).drop 4 =
      serve "alice" 1 (1 * nanosecondsPerSecond) [1750000000, 2000000000] fun _ => none :=
  @verdicts_forget [0, 250000000, 500000000, 750000000] [1750000000, 2000000000] _ "alice" 1 1
    (by decide) (by decide) (by decide) (by decide) rfl

end Pause

end NexPulse.RateLimit
