import NexPulse.RateLimit.Cap

/-!
# Calls one after another

The calls of a user run one after another at the instants they read, and the
key vanishes when the deadline set by the last EXPIRE has passed.  With a
window of whole seconds the deadline is one window after the last reading, so
expiry never takes an entry that a later call has to count.  Two calls with
the same reading share one entry, and then the cap can be exceeded.
-/

namespace NexPulse.RateLimit

open NexPulse.Foundation NexPulse.Foundation.Redis

theorem formatSec_seconds {seconds : Int} (h : 1 ≤ seconds) :
    formatSec (seconds * nanosecondsPerSecond) = seconds := by
  have hlong : nanosecondsPerSecond ≤ seconds * nanosecondsPerSecond := by
    unfold nanosecondsPerSecond
    omega
  rw [formatSec, if_neg fun hshort => absurd hshort.2 (not_lt.mpr hlong)]
  exact Int.mul_tdiv_cancel _ (by decide)

theorem deadline_allowRequest {userID : String} {limit window now : Int} {db : Db}
    {cell : Cell String}
    (h : (allowRequest userID limit window now db).2 (userKey userID) = some cell) :
    cell.deadline = some (now + formatSec window * nanosecondsPerSecond) := by
  let counted := (execAll now ((pipeline userID window now).take 3) db).2
  have hexpire : (allowRequest userID limit window now db).2 (userKey userID) =
      ((Op.expire (formatSec window)).apply now (counted (userKey userID))).2 :=
    Command.exec_self now ⟨userKey userID, .expire (formatSec window)⟩ counted
  rw [hexpire] at h
  cases hcell : counted (userKey userID) with
  | none => simp [hcell, Op.apply] at h
  | some previous =>
      by_cases hseconds : formatSec window ≤ 0
      · simp [hcell, Op.apply, hseconds] at h
      · simp only [hcell, Op.apply, hseconds, if_false, Option.some.injEq] at h
        rw [← h]

def Past (set : SortedSet String Int) (readings : List Int) : Prop :=
  ∀ member score, set.Has member score → ∀ reading ∈ readings, score ≤ reading

def OutlivedBy (window : Int) (cell : Option (Cell String)) : Prop :=
  ∀ deadline, cell.bind Cell.deadline = some deadline →
    ∀ member score, (setOf cell).Has member score → score + window ≤ deadline

structure InOrder (userID : String) (window : Int) (readings : List Int) (db : Db) : Prop where
  holdsSet : HoldsSet (db (userKey userID))
  sorted : readings.Pairwise (· ≤ ·)
  past : Past (setOf (db (userKey userID))) readings
  outlived : OutlivedBy window (db (userKey userID))

theorem purge_eq_or (db : Db) (key : String) (now : Int) :
    db.purge now key = db key ∨
      db.purge now key = none ∧ ∃ cell deadline, db key = some cell ∧
        cell.deadline = some deadline ∧ deadline ≤ now := by
  unfold Db.purge
  cases hcell : db key with
  | none => exact .inl rfl
  | some cell =>
      cases hdeadline : cell.deadline with
      | none => exact .inl (by simp [Cell.live, hdeadline])
      | some deadline =>
          by_cases hlive : now < deadline
          · exact .inl (by simp [Cell.live, hdeadline, hlive])
          · refine .inr ⟨by simp [Cell.live, hdeadline, hlive], cell, deadline, rfl, hdeadline, ?_⟩
            exact not_lt.mp hlive

theorem InOrder.past_purge {userID : String} {window : Int} {readings : List Int} {db : Db}
    (h : InOrder userID window readings db) (now : Int) :
    Past (setOf (db.purge now (userKey userID))) readings := by
  rcases purge_eq_or db (userKey userID) now with hsame | ⟨hgone, -⟩
  · rw [hsame]
    exact h.past
  · rw [hgone]
    intro member score hhas
    exact absurd hhas (SortedSet.not_has_empty member score)

theorem keeps_serve (userID : String) (limit : Int) {seconds : Int} (h : 1 ≤ seconds) :
    Keeps Db.purge userID limit (seconds * nanosecondsPerSecond)
      (InOrder userID (seconds * nanosecondsPerSecond)) where
  holdsSet hgood := holdsSet_purge _ hgood.holdsSet
  entry {now readings db reading} hgood hhas := by
    rcases purge_eq_or db (userKey userID) now with
      hsame | ⟨-, cell, deadline, hcell, hdeadline, hle⟩
    · exact .inl (hsame ▸ hhas)
    · refine .inr fun later hlater => .inl ?_
      have hentry := hgood.outlived deadline (by simp [hcell, hdeadline]) _ _ hhas
      have hnow : now ≤ later := by
        rcases List.mem_cons.mp hlater with rfl | hmem
        · exact le_rfl
        · exact List.rel_of_pairwise_cons hgood.sorted hmem
      omega
  next {now readings db} hgood := by
    have hwindow : 0 < seconds * nanosecondsPerSecond := by
      unfold nanosecondsPerSecond
      omega
    have hset := holdsSet_purge now hgood.holdsSet
    have hpast := hgood.past_purge now
    have hsub : ∀ member score, (setOf ((allowRequest userID limit
        (seconds * nanosecondsPerSecond) now (db.purge now)).2 (userKey userID))).Has member score →
        score ≤ now := by
      intro member score hhas
      rw [setOf_allowRequest hset hwindow, has_record] at hhas
      rcases hhas with ⟨-, rfl⟩ | ⟨-, hold, -⟩
      · exact le_rfl
      · exact hpast member score hold now List.mem_cons_self
    refine ⟨holdsSet_allowRequest hset, hgood.sorted.of_cons, ?_, ?_⟩
    · intro member score hhas reading hreading
      exact (hsub member score hhas).trans (List.rel_of_pairwise_cons hgood.sorted hreading)
    · intro deadline hdeadline member score hhas
      obtain ⟨cell, hcell, hdl⟩ := Option.bind_eq_some_iff.mp hdeadline
      rw [deadline_allowRequest hcell, formatSec_seconds h, Option.some.injEq] at hdl
      have := hsub member score hhas
      omega

theorem noOvertaking_of_increasing {window : Int} {readings : List Int}
    (h : readings.Pairwise (· < ·)) : NoOvertaking window readings := by
  intro earlier pruner later hsub hprunes
  have hpair := h.sublist hsub
  simp only [List.pairwise_cons, List.mem_cons, List.not_mem_nil, or_false, forall_eq_or_imp,
    forall_eq] at hpair
  unfold Prunes at hprunes
  exact .inl (by omega)

/-! ## Repeated readings -/

def Seen (set : SortedSet String Int) (seen : Finset Int) : Prop :=
  ∀ member score, set.Has member score → ∃ reading ∈ seen, toString reading = member

theorem Seen.record {window now : Int} {set : SortedSet String Int} {seen : Finset Int}
    (h : Seen set seen) (hnow : now ∈ seen) : Seen (record window now set) seen := by
  intro member score hhas
  rcases has_record.mp hhas with ⟨rfl, -⟩ | ⟨-, hold, -⟩
  · exact ⟨now, hnow, rfl⟩
  · exact h member score hold

theorem Seen.purge {db : Db} {key : String} {seen : Finset Int} (h : Seen (setOf (db key)) seen)
    (now : Int) : Seen (setOf (db.purge now key)) seen := by
  rcases purge_eq_or db key now with hsame | ⟨hgone, -⟩
  · rwa [hsame]
  · rw [hgone]
    intro member score hhas
    exact absurd hhas (SortedSet.not_has_empty member score)

theorem length_le_admittedWithin {userID : String} {limit window start : Int}
    (hwindow : 0 < window) {readings : List Int} {db : Db} {seen : Finset Int}
    (hset : HoldsSet (db (userKey userID))) (hseen : Seen (setOf (db (userKey userID))) seen)
    (hin : ∀ reading ∈ readings, InWindow start window reading ∧ reading ∈ seen)
    (hcard : (seen.card : Int) ≤ limit) :
    readings.length ≤ admittedWithin start window (serve userID limit window readings db) := by
  -- While at most `limit` distinct readings have been seen, every call is let through: repeated
  -- readings are not counted again.
  induction readings generalizing db with
  | nil => exact Nat.zero_le _
  | cons now readings ih =>
      obtain ⟨⟨hwithin, hmem⟩, hrest⟩ := List.forall_mem_cons.mp hin
      have hpurged := holdsSet_purge now hset
      have hrecorded : Seen (record window now (setOf (db.purge now (userKey userID)))) seen :=
        (hseen.purge now).record hmem
      have hcount : ((record window now
          (setOf (db.purge now (userKey userID)))).card : Int) ≤ limit := by
        have := SortedSet.card_le_of_has_forall hrecorded
        omega
      have hcall : Admitted start window
          (now, (allowRequest userID limit window now (db.purge now)).1) := by
        refine ⟨hwithin.1, hwithin.2, ?_⟩
        rw [allowRequest_verdict hpurged, decide_eq_true hcount]
      have hnext : HoldsSet ((allowRequest userID limit window now (db.purge now)).2
          (userKey userID)) := holdsSet_allowRequest hpurged
      have hseenNext : Seen (setOf ((allowRequest userID limit window now (db.purge now)).2
          (userKey userID))) seen := by
        rwa [setOf_allowRequest hpurged hwindow]
      rw [serve, serveWith, admittedWithin_cons, if_pos hcall]
      exact Nat.succ_le_succ (ih hnext hseenNext hrest)

theorem exists_covering_window (readings : List Int) : ∃ seconds start : Int, 1 ≤ seconds ∧
    ∀ reading ∈ readings, InWindow start (seconds * nanosecondsPerSecond) reading := by
  obtain ⟨bound, hpos, hbound⟩ : ∃ bound : Int, 1 ≤ bound ∧
      ∀ reading ∈ readings, -bound < reading ∧ reading < bound := by
    induction readings with
    | nil => exact ⟨1, le_rfl, by simp⟩
    | cons first readings ih =>
        obtain ⟨bound, hpos, hbound⟩ := ih
        refine ⟨bound + first.natAbs + 1, by omega, List.forall_mem_cons.mpr ⟨by omega, ?_⟩⟩
        intro reading hreading
        have := hbound reading hreading
        omega
  refine ⟨bound, -bound, hpos, fun reading hreading => ?_⟩
  have := hbound reading hreading
  unfold InWindow nanosecondsPerSecond
  omega

theorem exceeds_of_repeated (userID : String) {readings : List Int} {db : Db}
    (hnew : db (userKey userID) = none) (htwice : ¬ readings.Nodup) :
    ∃ limit seconds start : Int, 1 ≤ limit ∧ 1 ≤ seconds ∧
      limit < admittedWithin start (seconds * nanosecondsPerSecond)
        (serve userID limit (seconds * nanosecondsPerSecond) readings db) := by
  obtain ⟨seconds, start, hseconds, hcover⟩ := exists_covering_window readings
  have hfew : readings.toFinset.card < readings.length := by
    refine lt_of_le_of_ne (List.toFinset_card_le readings) fun heq => htwice ?_
    exact Multiset.toFinset_card_eq_card_iff_nodup.mp heq
  have hsome : 0 < readings.toFinset.card := by
    refine Finset.card_pos.mpr (List.toFinset_nonempty_iff _ |>.mpr ?_)
    rintro rfl
    exact htwice List.nodup_nil
  have hwindow : 0 < seconds * nanosecondsPerSecond := by
    unfold nanosecondsPerSecond
    omega
  have hset : HoldsSet (db (userKey userID)) := by rw [hnew]; trivial
  have hseen : Seen (setOf (db (userKey userID))) readings.toFinset := by
    rw [hnew]
    exact fun member score hhas => absurd hhas (SortedSet.not_has_empty member score)
  have hall := length_le_admittedWithin hwindow hset hseen
    (fun reading hreading => ⟨hcover reading hreading, List.mem_toFinset.mpr hreading⟩) le_rfl
  exact ⟨readings.toFinset.card, seconds, start, by omega, hseconds, by omega⟩

/--
For calls one after another the cap holds for every limit and every window of
whole seconds exactly when no two of them read the same nanosecond value.
-/
theorem cap_iff_increasing (userID : String) {readings : List Int}
    (hsorted : readings.Pairwise (· ≤ ·)) {db : Db} (hnew : db (userKey userID) = none) :
    (∀ limit seconds : Int, 1 ≤ limit → 1 ≤ seconds → ∀ start : Int,
      (admittedWithin start (seconds * nanosecondsPerSecond)
        (serve userID limit (seconds * nanosecondsPerSecond) readings db) : Int) ≤ limit) ↔
      readings.Pairwise (· < ·) := by
  constructor
  · intro hcap
    by_contra hrepeats
    have htwice : ¬ readings.Nodup := fun hnodup =>
      hrepeats (hsorted.imp₂ (fun _ _ hle hne => lt_of_le_of_ne hle hne) hnodup)
    obtain ⟨limit, seconds, start, hlimit, hseconds, hexceeds⟩ :=
      exceeds_of_repeated userID hnew htwice
    exact absurd (hcap limit seconds hlimit hseconds start) (not_le.mpr hexceeds)
  · intro hincreasing limit seconds hlimit hseconds start
    have hwindow : 0 < seconds * nanosecondsPerSecond := by
      unfold nanosecondsPerSecond
      omega
    refine admittedWithin_serveWith_le (keeps_serve userID limit hseconds) hlimit hwindow
      ⟨?_, hsorted, ?_, ?_⟩ (hincreasing.imp fun hlt => hlt.ne)
      (noOvertaking_of_increasing hincreasing)
    · rw [hnew]
      trivial
    · rw [hnew]
      exact fun member score hhas => absurd hhas (SortedSet.not_has_empty member score)
    · rw [hnew]
      exact fun deadline hdeadline => absurd hdeadline (by simp)

theorem cap_holds_increasing :
    (admittedWithin 1 (1 * nanosecondsPerSecond)
      (serve "alice" 2 (1 * nanosecondsPerSecond) [1, 2, 3, 1000000005] fun _ => none) : Int) ≤ 2 :=
  (cap_iff_increasing "alice" (by decide) rfl).mpr (by decide) 2 1 (by decide) (by decide) 1

theorem cap_fails_repeated :
    ¬ (admittedWithin 4 nanosecondsPerSecond
      (serve "alice" 1 nanosecondsPerSecond [5, 5] fun _ => none) : Int) ≤ 1 := by
  decide

end NexPulse.RateLimit
