import NexPulse.Foundation.Pool
import NexPulse.RateLimit.Sequential

/-!
# What a call counts

For calls one after another the set that a call counts holds exactly the
distinct readings of its window, those of rejected calls included: pruning
takes the readings that are a window old, and a key that has expired held no
others.
-/

namespace NexPulse.RateLimit

open NexPulse.Foundation NexPulse.Foundation.Redis

/-- The distinct readings in `(now - window, now]` of a call and the calls before it. -/
def windowReadings (window now : Int) (earlier : List Int) : Finset Int :=
  (insert now earlier.toFinset).filter fun reading => now - window < reading ∧ reading ≤ now

structure History (userID : String) (window : Int) (earlier readings : List Int) (db : Db) :
    Prop where
  holdsSet : HoldsSet (db (userKey userID))
  ordered : (earlier ++ readings).Pairwise (· ≤ ·)
  nonneg : ∀ reading ∈ earlier ++ readings, 0 ≤ reading
  has : ∀ member score, (setOf (db (userKey userID))).Has member score ↔
    ∃ reading ∈ earlier, (∀ last ∈ earlier, last - window < reading) ∧
      toString reading = member ∧ reading = score
  outlived : OutlivedBy window (db (userKey userID))

section History

variable {userID : String} {limit window now : Int} {earlier readings : List Int} {db : Db}

theorem history_new (hsorted : readings.Pairwise (· ≤ ·))
    (hnonneg : ∀ reading ∈ readings, 0 ≤ reading)
    (hnew : db (userKey userID) = none) : History userID window [] readings db where
  holdsSet := by rw [hnew]; trivial
  ordered := hsorted
  nonneg := hnonneg
  has member score := by simp [hnew]
  outlived := by
    rw [hnew]
    exact fun deadline hdeadline => absurd hdeadline (by simp)

theorem History.le_now (h : History userID window earlier (now :: readings) db) {reading : Int}
    (hreading : reading ∈ earlier) : reading ≤ now :=
  (List.pairwise_append.mp h.ordered).2.2 reading hreading now List.mem_cons_self

theorem History.has_purge (h : History userID window earlier (now :: readings) db)
    {reading : Int} (hreading : reading ∈ earlier) (hwithin : now - window < reading) :
    (setOf (db.purge now (userKey userID))).Has (toString reading) reading := by
  have hstored : (setOf (db (userKey userID))).Has (toString reading) reading := by
    refine (h.has _ _).mpr ⟨reading, hreading, fun last hlast => ?_, rfl, rfl⟩
    have := h.le_now hlast
    omega
  rcases purge_eq_or db (userKey userID) now with hsame | ⟨-, cell, deadline, hcell, hdeadline, hle⟩
  · rwa [hsame]
  · have hentry := h.outlived deadline (by simp [hcell, hdeadline]) _ _ hstored
    omega

theorem History.has_record (h : History userID window earlier (now :: readings) db)
    (hwindow : 0 < window) (member : String) (score : Int) :
    (record window now (setOf (db.purge now (userKey userID)))).Has member score ↔
      ∃ reading ∈ windowReadings window now earlier,
        toString reading = member ∧ reading = score := by
  rw [RateLimit.has_record]
  constructor
  · rintro (⟨rfl, rfl⟩ | ⟨-, hold, hkept⟩)
    · exact ⟨score, by simp [windowReadings, hwindow], rfl, rfl⟩
    · have hstored : (setOf (db (userKey userID))).Has member score := by
        rcases purge_eq_or db (userKey userID) now with hsame | ⟨hgone, -⟩
        · rwa [hsame] at hold
        · rw [hgone] at hold
          exact absurd hold (SortedSet.not_has_empty member score)
      obtain ⟨reading, hreading, -, rfl, rfl⟩ := (h.has _ _).mp hstored
      have hpositive := h.nonneg reading (List.mem_append_left _ hreading)
      have hwithin : now - window < reading := by omega
      exact ⟨reading, by simp [windowReadings, hreading, hwithin, h.le_now hreading], rfl, rfl⟩
  · rintro ⟨reading, hreading, rfl, rfl⟩
    obtain ⟨hmem, hwithin, -⟩ := Finset.mem_filter.mp hreading
    by_cases hself : reading = now
    · exact .inl ⟨congrArg toString hself, hself⟩
    · have hearlier : reading ∈ earlier :=
        List.mem_toFinset.mp (Finset.mem_of_mem_insert_of_ne hmem hself)
      refine .inr ⟨fun heq => hself (toString_inj.mp heq), h.has_purge hearlier hwithin, ?_⟩
      omega

theorem History.card_record (h : History userID window earlier (now :: readings) db)
    (hwindow : 0 < window) :
    (record window now (setOf (db.purge now (userKey userID)))).card =
      (windowReadings window now earlier).card := by
  have hinj : Set.InjOn (fun reading : Int => toString reading)
      (windowReadings window now earlier) := fun _ _ _ _ heq => toString_inj.mp heq
  exact SortedSet.card_eq_of_has_iff hinj (h.has_record hwindow)

theorem History.verdict (h : History userID window earlier (now :: readings) db)
    (hwindow : 0 < window) :
    (allowRequest userID limit window now (db.purge now)).1 =
      .ok (decide (((windowReadings window now earlier).card : Int) ≤ limit)) := by
  rw [allowRequest_verdict (holdsSet_purge now h.holdsSet), h.card_record hwindow]

theorem History.next (h : History userID window earlier (now :: readings) db)
    (limit : Int) (hwindow : 0 < window)
    (hcovers : window ≤ formatSec window * nanosecondsPerSecond) :
    History userID window (earlier ++ [now]) readings
      (allowRequest userID limit window now (db.purge now)).2 := by
  have hset := holdsSet_purge now h.holdsSet
  have hall : (earlier ++ [now]) ++ readings = earlier ++ now :: readings := by simp
  have hhas (member : String) (score : Int) :
      (setOf ((allowRequest userID limit window now (db.purge now)).2
        (userKey userID))).Has member score ↔ ∃ reading ∈ windowReadings window now earlier,
          toString reading = member ∧ reading = score := by
    rw [setOf_allowRequest hset hwindow]
    exact h.has_record hwindow member score
  refine ⟨holdsSet_allowRequest hset, hall ▸ h.ordered, hall ▸ h.nonneg, fun member score => ?_, ?_⟩
  · rw [hhas]
    constructor
    · rintro ⟨reading, hreading, hentry⟩
      obtain ⟨hmem, hwithin, -⟩ := Finset.mem_filter.mp hreading
      refine ⟨reading, ?_, fun last hlast => ?_, hentry⟩
      · simpa [or_comm] using hmem
      · have hle : last ≤ now := by
          rcases List.mem_append.mp hlast with hold | hnew
          · exact h.le_now hold
          · exact (List.mem_singleton.mp hnew).le
        omega
    · rintro ⟨reading, hreading, hlast, hentry⟩
      have hwithin := hlast now (List.mem_append_right _ (List.mem_singleton_self now))
      refine ⟨reading, Finset.mem_filter.mpr ⟨?_, hwithin, ?_⟩, hentry⟩
      · simpa [or_comm] using hreading
      · rcases List.mem_append.mp hreading with hold | hnew
        · exact h.le_now hold
        · exact (List.mem_singleton.mp hnew).le
  · intro deadline hdeadline member score hentry
    obtain ⟨reading, hreading, -, rfl⟩ := (hhas member score).mp hentry
    obtain ⟨cell, hcell, hdl⟩ := Option.bind_eq_some_iff.mp hdeadline
    rw [deadline_allowRequest hcell, Option.some.injEq] at hdl
    have hle := (Finset.mem_filter.mp hreading).2.2
    omega

theorem History.serve (h : History userID window earlier readings db) (hwindow : 0 < window)
    (hcovers : window ≤ formatSec window * nanosecondsPerSecond) {index : Nat}
    (hindex : readings[index]? = some now) :
    (serve userID limit window readings db)[index]? = some (now,
      .ok (decide (((windowReadings window now (earlier ++ readings.take index)).card : Int) ≤
        limit))) := by
  induction readings generalizing earlier db index with
  | nil => simp at hindex
  | cons first readings ih =>
      cases index with
      | zero =>
          obtain rfl : first = now := by simpa using hindex
          simp [RateLimit.serve, serveWith, h.verdict hwindow]
      | succ index =>
          have hrest := ih (h.next limit hwindow hcovers) (by simpa using hindex)
          have hsplit : earlier ++ (first :: readings).take (index + 1) =
              (earlier ++ [first]) ++ readings.take index := by simp
          rw [hsplit]
          exact hrest

end History

/--
A call let through is one with at most `limit` distinct readings in its window,
among its own and those of all earlier calls, admitted or rejected.
-/
theorem verdict_exact (userID : String) (limit : Int) {seconds : Int} (hseconds : 1 ≤ seconds)
    {readings : List Int} (hsorted : readings.Pairwise (· ≤ ·))
    (hnonneg : ∀ reading ∈ readings, 0 ≤ reading) {db : Db} (hnew : db (userKey userID) = none)
    {index : Nat} {now : Int} (hindex : readings[index]? = some now) :
    (serve userID limit (seconds * nanosecondsPerSecond) readings db)[index]? = some (now,
      .ok (decide (((windowReadings (seconds * nanosecondsPerSecond) now
        (readings.take index)).card : Int) ≤ limit))) := by
  have hwindow : 0 < seconds * nanosecondsPerSecond := by
    unfold nanosecondsPerSecond
    omega
  have hcovers : seconds * nanosecondsPerSecond ≤
      formatSec (seconds * nanosecondsPerSecond) * nanosecondsPerSecond := by
    rw [formatSec_seconds hseconds]
  exact (history_new hsorted hnonneg hnew).serve hwindow hcovers hindex

theorem verdict_exact_rejected_counted :
    (serve "alice" 2 (1 * nanosecondsPerSecond) [1, 1, 2, 3, 1000000002] fun _ => none)[4]? =
      some (1000000002, .ok (decide (((windowReadings (1 * nanosecondsPerSecond) 1000000002
        [1, 1, 2, 3]).card : Int) ≤ 2))) :=
  verdict_exact "alice" 2 (by decide) (by decide) (by decide) rfl rfl

/-! ## Overload -/

theorem card_windowReadings {window now : Int} {earlier : List Int} (hwindow : 0 < window)
    (hnodup : earlier.Nodup) (hpast : ∀ reading ∈ earlier, reading < now) :
    (windowReadings window now earlier).card =
      earlier.countP (fun reading => now - window < reading ∧ reading < now) + 1 := by
  have hsplit : windowReadings window now earlier =
      insert now
        (earlier.filter fun reading => now - window < reading ∧ reading < now).toFinset := by
    ext reading
    simp only [windowReadings, Finset.mem_filter, Finset.mem_insert, List.mem_toFinset,
      List.mem_filter, decide_eq_true_iff]
    constructor
    · rintro ⟨hself | hmem, hwithin, -⟩
      · exact .inl hself
      · exact .inr ⟨hmem, hwithin, hpast reading hmem⟩
    · rintro (rfl | ⟨hmem, hwithin, hlt⟩)
      · exact ⟨.inl rfl, by omega, le_rfl⟩
      · exact ⟨.inr hmem, hwithin, hlt.le⟩
  rw [hsplit, Finset.card_insert_of_notMem (by simp), List.toFinset_card_of_nodup (hnodup.filter _),
    List.countP_eq_length_filter]

/--
A call is let through exactly when fewer than `limit` earlier calls, admitted or
rejected, have a reading in its window.
-/
theorem admitted_iff_few_sent (userID : String) {limit seconds : Int} (hseconds : 1 ≤ seconds)
    {readings : List Int} (hincreasing : readings.Pairwise (· < ·))
    (hnonneg : ∀ reading ∈ readings, 0 ≤ reading) {db : Db} (hnew : db (userKey userID) = none)
    {index : Nat} {now : Int} (hindex : readings[index]? = some now) :
    (serve userID limit (seconds * nanosecondsPerSecond) readings db)[index]? =
        some (now, .ok true) ↔
      ((readings.take index).countP (fun reading =>
        now - seconds * nanosecondsPerSecond < reading ∧ reading < now) : Int) < limit := by
  have hwindow : 0 < seconds * nanosecondsPerSecond := by
    unfold nanosecondsPerSecond
    omega
  have hearlier : (readings.take index).Nodup :=
    (hincreasing.imp fun hlt => hlt.ne).sublist (List.take_sublist _ _)
  have hpast : ∀ reading ∈ readings.take index, reading < now := by
    rw [Pool.eq_take_append_cons_drop hindex, List.pairwise_append] at hincreasing
    exact fun reading hmem => hincreasing.2.2 reading hmem now List.mem_cons_self
  rw [verdict_exact userID limit hseconds (hincreasing.imp le_of_lt) hnonneg hnew hindex,
    card_windowReadings hwindow hearlier hpast]
  simp only [Option.some.injEq, Prod.mk.injEq, true_and, Except.ok.injEq, decide_eq_true_iff]
  omega

theorem admitted_iff_few_sent_after_pause :
    (serve "alice" 1 (1 * nanosecondsPerSecond) [0, 600000000, 1600000000] fun _ => none)[2]? =
      some (1600000000, .ok true) :=
  (admitted_iff_few_sent "alice" (by decide) (by decide) (by decide) rfl rfl).mpr (by decide)

/--
At limit one, three calls 0.6 seconds apart: no call in the window of the third
has been let through, but the second, rejected one counts and it is rejected.
-/
theorem rejected_under_limit :
    let calls := serve "alice" 1 (1 * nanosecondsPerSecond) [0, 600000000, 1200000000] fun _ => none
    ¬ (((calls.take 2).countP fun call => 1200000000 - 1 * nanosecondsPerSecond < call.1 ∧
        call.1 < 1200000000 ∧ call.2 = .ok true) < 1 →
      calls[2]? = some (1200000000, .ok true)) := by
  decide

end NexPulse.RateLimit
