import NexPulse.Foundation.Pool
import NexPulse.RateLimit.Variants

/-!
# Key expiry

The same calls with and without EXPIRE.  The time to live is the window in
whole seconds, so with a window of 1.5 seconds the key is gone after a pause of
one second, together with entries that the next call still has to count.
-/

namespace NexPulse.RateLimit

open NexPulse.Foundation NexPulse.Foundation.Redis

def serveWithoutExpire : String → Int → Int → List Int → Db → List (Int × Except Error Bool) :=
  serveCommands id false

theorem commands_without_expire (userID : String) (window now : Int) :
    commands id false userID window now =
      (pipeline userID window now).filter fun command =>
        command.op ≠ .expire (formatSec window) := by
  simp [commands, pipeline]

/--
The readings that the call at `now` does not remove: those of its window, and
any before the epoch, since the removal starts at score zero.
-/
def unpruned (window now : Int) (readings : List Int) : Nat :=
  readings.countP fun reading => ¬ Pruned id window now reading

/--
Wherever a pause of at least the time to live lies before a call, at most
`limit` readings are in the window of the call, or more than `limit` of them
come after the pause.
-/
def PausesHarmless (limit window : Int) (readings : List Int) : Prop :=
  ∀ before after now rest, readings = before ++ after ++ now :: rest →
    (∀ first ∈ before, ∀ second ∈ after ++ [now], first + timeToLive window ≤ second) →
      (unpruned window now (before ++ after ++ [now]) : Int) ≤ limit ∨
        limit < unpruned window now (after ++ [now])

/-! ## The last pause -/

section SincePause

variable {ttl now : Int} {earlier since before : List Int}

theorem sincePause_append
    (h : ∀ first ∈ before, ∀ second, second = now ∨ second ∈ since → first + ttl ≤ second) :
    sincePause ttl now (since ++ before) = sincePause ttl now since := by
  induction since generalizing now with
  | nil =>
      cases before with
      | nil => rfl
      | cons first before =>
          exact if_pos (h first List.mem_cons_self now (.inl rfl))
  | cons last since ih =>
      rw [List.cons_append, sincePause, sincePause, ih]
      intro first hfirst second hsecond
      exact h first hfirst second (.inr (by simpa using hsecond))

theorem exists_sincePause (hdescending : (now :: earlier).Pairwise (· > ·)) (ttl : Int) :
    ∃ before, earlier = sincePause ttl now earlier ++ before ∧
      ∀ first ∈ before, ∀ second, second = now ∨ second ∈ sincePause ttl now earlier →
        first + ttl ≤ second := by
  induction earlier generalizing now with
  | nil => exact ⟨[], rfl, by simp⟩
  | cons last earlier ih =>
      obtain ⟨hnow, hrest⟩ := List.pairwise_cons.mp hdescending
      rw [sincePause]
      split
      · next hpause =>
          refine ⟨last :: earlier, rfl, fun first hfirst second hsecond => ?_⟩
          obtain rfl : second = now := by simpa using hsecond
          rcases List.mem_cons.mp hfirst with rfl | hold
          · exact hpause
          · have := List.rel_of_pairwise_cons hrest hold
            omega
      · obtain ⟨before, hsplit, hpause⟩ := ih hrest
        refine ⟨before, by rw [List.cons_append, ← hsplit], fun first hfirst second hsecond => ?_⟩
        rcases hsecond with rfl | hsecond
        · have hbefore := hpause first hfirst last (.inl rfl)
          have := hnow last List.mem_cons_self
          omega
        · exact hpause first hfirst second (by simpa using hsecond)

end SincePause

/-! ## Runs -/

section Runs

variable {limit window now : Int} {earlier readings : List Int}

theorem not_pruned_self (hwindow : 0 < window) (now : Int) : ¬ Pruned id window now now := by
  unfold Pruned
  simp only [id]
  omega

theorem counted_eq_unpruned (hwindow : 0 < window) (expires : Bool) (now : Int)
    (earlier : List Int) : counted id expires window now earlier =
      unpruned window now ((kept expires window now earlier).reverse ++ [now]) := by
  rw [counted, unpruned, List.countP_append, List.countP_reverse, List.countP_singleton,
    if_pos (by simpa using not_pruned_self hwindow now)]

theorem pausesHarmless_iff_counted (hwindow : 0 < window)
    (hincreasing : readings.Pairwise (· < ·)) :
    PausesHarmless limit window readings ↔
      ∀ index now, readings[index]? = some now →
        (counted id false window now (readings.take index).reverse : Int) ≤ limit ∨
          limit < counted id true window now (readings.take index).reverse := by
  constructor
  · intro hharmless index now hindex
    have hsplit := Pool.eq_take_append_cons_drop hindex
    have hdescending : (now :: (readings.take index).reverse).Pairwise (· > ·) := by
      have hpair : (readings.take index ++ [now]).Pairwise (· < ·) := by
        refine hincreasing.sublist ?_
        conv_rhs => rw [hsplit]
        exact (List.Sublist.refl _).append (List.nil_sublist _ |>.cons_cons now)
      have := List.pairwise_reverse.mpr hpair
      rwa [List.reverse_append] at this
    obtain ⟨before, hbefore, hpause⟩ := exists_sincePause hdescending (timeToLive window)
    have htake : readings.take index = before.reverse ++
        (sincePause (timeToLive window) now (readings.take index).reverse).reverse := by
      rw [← List.reverse_append, ← hbefore, List.reverse_reverse]
    have hcall := hharmless before.reverse
      (sincePause (timeToLive window) now (readings.take index).reverse).reverse now
      (readings.drop (index + 1)) (by rw [← htake]; exact hsplit) (by
        intro first hfirst second hsecond
        refine hpause first (by simpa using hfirst) second ?_
        simpa [or_comm] using hsecond)
    rw [← htake] at hcall
    rw [counted_eq_unpruned hwindow, counted_eq_unpruned hwindow]
    simpa [kept] using hcall
  · rintro hcounted before after now rest rfl hpause
    have hcall := hcounted (before ++ after).length now (by simp)
    rw [List.take_left, List.reverse_append, counted_eq_unpruned hwindow,
      counted_eq_unpruned hwindow] at hcall
    have hsince : kept true window now (after.reverse ++ before.reverse) =
        sincePause (timeToLive window) now after.reverse := by
      refine sincePause_append fun first hfirst second hsecond => ?_
      refine hpause first (by simpa using hfirst) second ?_
      simpa [or_comm] using hsecond
    have hall : kept false window now (after.reverse ++ before.reverse) =
        (before ++ after).reverse := by simp [kept]
    rw [hsince, hall, List.reverse_reverse] at hcall
    have hle : unpruned window now
        ((sincePause (timeToLive window) now after.reverse).reverse ++ [now]) ≤
          unpruned window now (after ++ [now]) := by
      refine List.Sublist.countP_le (List.Sublist.append ?_ (List.Sublist.refl _))
      rw [← List.reverse_reverse after, List.reverse_sublist, List.reverse_reverse]
      exact sincePause_sublist _ _ _
    omega

theorem serve_eq_serveWithoutExpire_iff (userID : String) (hwindow : 0 < window)
    (hincreasing : readings.Pairwise (· < ·)) {db : Db} (hnew : db (userKey userID) = none) :
    serve userID limit window readings db = serveWithoutExpire userID limit window readings db ↔
      PausesHarmless limit window readings := by
  rw [serve_eq_serveCommands, serveWithoutExpire, pausesHarmless_iff_counted hwindow hincreasing,
    serveCommands_eq_iff monotone_id monotone_id true false userID limit window hincreasing hnew]
  refine forall_congr' fun index => forall_congr' fun now => imp_congr_right fun _ => ?_
  have hle : counted id true window now (readings.take index).reverse ≤
      counted id false window now (readings.take index).reverse :=
    Nat.succ_le_succ ((sincePause_sublist _ _ _).countP_le)
  omega

end Runs

/-! ## Windows and limits that no pause can harm -/

theorem timeToLive_pos {window : Int} (hwindow : 0 < window) : 0 < timeToLive window := by
  have := formatSec_pos hwindow
  unfold timeToLive nanosecondsPerSecond
  omega

theorem countP_le_of_within {readings : List Int} (hincreasing : readings.Pairwise (· < ·))
    {p : Int → Bool} (low high : Int)
    (h : ∀ reading ∈ readings, p reading → low < reading ∧ reading ≤ high) :
    readings.countP p ≤ (high - low).toNat := by
  have hnodup : (readings.filter p).Nodup :=
    (hincreasing.imp fun hlt => hlt.ne).sublist List.filter_sublist
  have hsub : (readings.filter p).toFinset ⊆ Finset.Ioc low high := by
    intro reading hreading
    obtain ⟨hmem, hkeep⟩ := List.mem_filter.mp (List.mem_toFinset.mp hreading)
    exact Finset.mem_Ioc.mpr (h reading hmem hkeep)
  have hcard := Finset.card_le_card hsub
  rwa [List.toFinset_card_of_nodup hnodup, Int.card_Ioc, ← List.countP_eq_length_filter] at hcard

section Bounds

variable {limit window now : Int} {before after readings : List Int}

theorem one_le_unpruned (hwindow : 0 < window) (now : Int) (after : List Int) :
    1 ≤ unpruned window now (after ++ [now]) := by
  rw [unpruned, List.countP_append, List.countP_singleton,
    if_pos (by simpa using not_pruned_self hwindow now)]
  omega

theorem within_of_unpruned {reading : Int} (hnonneg : 0 ≤ reading)
    (h : ¬ Pruned id window now reading) : now - window < reading := by
  unfold Pruned at h
  simp only [id] at h
  omega

theorem unpruned_of_before (hnonneg : ∀ reading ∈ before, 0 ≤ reading)
    (hout : ∀ reading ∈ before, reading ≤ now - window) :
    unpruned window now (before ++ after ++ [now]) = unpruned window now (after ++ [now]) := by
  have hnone : before.countP (fun reading => ¬ Pruned id window now reading) = 0 := by
    refine List.countP_eq_zero.mpr fun reading hreading hkept => ?_
    have hwithin := within_of_unpruned (hnonneg reading hreading) (by simpa using hkept)
    exact absurd hwithin (not_lt.mpr (hout reading hreading))
  rw [unpruned, List.append_assoc, List.countP_append, hnone, zero_add, unpruned]

theorem pausesHarmless_of_covered (hcovers : window ≤ timeToLive window)
    (hnonneg : ∀ reading ∈ readings, 0 ≤ reading) : PausesHarmless limit window readings := by
  rintro before after now rest rfl hpause
  rw [unpruned_of_before]
  · omega
  · exact fun reading hreading => hnonneg reading (by simp [hreading])
  · intro reading hreading
    have := hpause reading hreading now (by simp)
    omega

theorem pausesHarmless_of_limit_lt_one (hwindow : 0 < window) (hlimit : limit < 1)
    (readings : List Int) : PausesHarmless limit window readings := by
  rintro before after now rest - -
  have := one_le_unpruned hwindow now after
  omega

theorem unpruned_le_of_pause (hincreasing : (before ++ after ++ [now]).Pairwise (· < ·))
    (hnonneg : ∀ reading ∈ before ++ after ++ [now], 0 ≤ reading) {last : Int}
    (hmax : ∀ first ∈ before, first ≤ last) (hin : now - window < last)
    (hpause : ∀ second ∈ after ++ [now], last + timeToLive window ≤ second) :
    (unpruned window now (before ++ after ++ [now]) : Int) ≤
      window - timeToLive window + 1 := by
  obtain ⟨hbefore, hafter, -⟩ :=
    List.pairwise_append.mp (List.append_assoc before after [now] ▸ hincreasing)
  have hnow : ∀ second ∈ after ++ [now], second ≤ now := by
    intro second hsecond
    rcases List.mem_append.mp hsecond with hmem | hself
    · exact ((List.pairwise_append.mp hafter).2.2 second hmem now (by simp)).le
    · exact (List.mem_singleton.mp hself).le
  have hold : before.countP (fun reading => ¬ Pruned id window now reading) ≤
      (last - (now - window)).toNat := by
    refine countP_le_of_within hbefore _ _ fun reading hreading hkept => ?_
    have hwithin := within_of_unpruned (hnonneg reading (by simp [hreading])) (by simpa using hkept)
    exact ⟨hwithin, hmax reading hreading⟩
  have hnew : (after ++ [now]).countP (fun reading => ¬ Pruned id window now reading) ≤
      (now - (last + timeToLive window - 1)).toNat := by
    refine countP_le_of_within hafter _ _ fun reading hreading _ => ⟨?_, hnow reading hreading⟩
    have := hpause reading hreading
    omega
  have hroom := hpause now (by simp)
  rw [unpruned, List.append_assoc, List.countP_append]
  omega

theorem pausesHarmless_of_few (hlimit : window - timeToLive window < limit)
    (hincreasing : readings.Pairwise (· < ·)) (hnonneg : ∀ reading ∈ readings, 0 ≤ reading) :
    PausesHarmless limit window readings := by
  rintro before after now rest rfl hpause
  have hsub : (before ++ after ++ [now]).Sublist (before ++ after ++ now :: rest) :=
    (List.Sublist.refl _).append ((List.nil_sublist _).cons_cons now)
  have hcalls := hincreasing.sublist hsub
  have hpositive : ∀ reading ∈ before ++ after ++ [now], 0 ≤ reading :=
    fun reading hreading => hnonneg reading (hsub.subset hreading)
  rcases List.eq_nil_or_concat before with rfl | ⟨earlier, last, rfl⟩
  · rw [List.nil_append]
    omega
  · have hmem : last ∈ earlier.concat last := by simp
    have hmax : ∀ first ∈ earlier.concat last, first ≤ last := by
      intro first hfirst
      rw [List.concat_eq_append, List.append_assoc, List.append_assoc] at hcalls
      rcases List.mem_append.mp (List.concat_eq_append ▸ hfirst) with hold | hself
      · exact ((List.pairwise_append.mp hcalls).2.2 first hold last (by simp)).le
      · exact (List.mem_singleton.mp hself).le
    by_cases hin : now - window < last
    · have hle := unpruned_le_of_pause hcalls hpositive hmax hin (hpause last hmem)
      omega
    · rw [unpruned_of_before]
      · omega
      · exact fun reading hreading =>
          hpositive reading (List.mem_append_left _ (List.mem_append_left _ hreading))
      · exact fun reading hreading => (hmax reading hreading).trans (not_lt.mp hin)

end Bounds

def burst (limit window : Int) : List Int :=
  (List.range limit.toNat).map (fun index : Nat => (index : Int)) ++ [limit - 1 + timeToLive window]

section Burst

variable {limit window : Int}

theorem burst_increasing (hwindow : 0 < window) : (burst limit window).Pairwise (· < ·) := by
  have hpos := timeToLive_pos hwindow
  refine List.pairwise_append.mpr ⟨?_, List.pairwise_singleton _ _, ?_⟩
  · rw [List.pairwise_map]
    exact List.pairwise_lt_range.imp fun h => by omega
  · simp only [List.mem_map, List.mem_range, List.mem_singleton]
    rintro _ ⟨index, hindex, rfl⟩ _ rfl
    omega

theorem burst_nonneg (hwindow : 0 < window) (hlimit : 1 ≤ limit) :
    ∀ reading ∈ burst limit window, 0 ≤ reading := by
  have hpos := timeToLive_pos hwindow
  simp only [burst, List.mem_append, List.mem_map, List.mem_range, List.mem_singleton]
  rintro _ (⟨index, -, rfl⟩ | rfl) <;> omega

theorem not_pausesHarmless_burst (hwindow : 0 < window) (hlimit : 1 ≤ limit)
    (hroom : limit ≤ window - timeToLive window) :
    ¬ PausesHarmless limit window (burst limit window) := by
  intro hharmless
  let before := (List.range limit.toNat).map fun index : Nat => (index : Int)
  let now := limit - 1 + timeToLive window
  have hcall := hharmless before [] now [] (by simp [burst, before, now]) (by
    simp only [before, now, List.mem_map, List.mem_range, List.nil_append, List.mem_singleton]
    rintro _ ⟨index, hindex, rfl⟩ _ rfl
    omega)
  have hall : unpruned window now (before ++ [] ++ [now]) = limit.toNat + 1 := by
    have hevery : ∀ reading ∈ before ++ [] ++ [now], ¬ Pruned id window now reading := by
      intro reading hreading hpruned
      have hnonneg : 0 ≤ reading := hpruned.1
      have hout : reading ≤ now - window := hpruned.2
      simp only [now] at hout
      omega
    rw [unpruned, List.countP_eq_length.mpr (by simpa using hevery)]
    simp [before]
  have hself : unpruned window now ([] ++ [now]) = 1 := by
    rw [unpruned, List.nil_append, List.countP_singleton,
      if_pos (by simpa using not_pruned_self hwindow now)]
  rw [hall, hself] at hcall
  omega

end Burst

/--
Without EXPIRE the verdicts of a run stay the same exactly when its pauses are
harmless; and they stay the same in all runs since the epoch exactly when the
time to live covers the window, no call is let through, or the window leaves no
room for a pause and more than `limit` readings.
-/
theorem expiry_harmless_iff (userID : String) (limit : Int) {window : Int} (hwindow : 0 < window)
    {db : Db} (hnew : db (userKey userID) = none) :
    (∀ readings : List Int, readings.Pairwise (· < ·) →
      (serve userID limit window readings db = serveWithoutExpire userID limit window readings db ↔
        PausesHarmless limit window readings)) ∧
    ((∀ readings : List Int, readings.Pairwise (· < ·) → (∀ reading ∈ readings, 0 ≤ reading) →
        serve userID limit window readings db =
          serveWithoutExpire userID limit window readings db) ↔
      window ≤ timeToLive window ∨ limit < 1 ∨ window - timeToLive window < limit) := by
  refine ⟨fun readings hincreasing =>
    serve_eq_serveWithoutExpire_iff userID hwindow hincreasing hnew, ?_⟩
  constructor
  · intro hsame
    by_contra hroom
    obtain ⟨huncovered, hlimit, hfew⟩ : ¬ window ≤ timeToLive window ∧ ¬ limit < 1 ∧
        ¬ window - timeToLive window < limit := by simpa [not_or] using hroom
    have hburst := hsame (burst limit window) (burst_increasing hwindow)
      (burst_nonneg hwindow (not_lt.mp hlimit))
    rw [serve_eq_serveWithoutExpire_iff userID hwindow (burst_increasing hwindow) hnew] at hburst
    exact not_pausesHarmless_burst hwindow (not_lt.mp hlimit) (not_lt.mp hfew) hburst
  · intro hcondition readings hincreasing hnonneg
    rw [serve_eq_serveWithoutExpire_iff userID hwindow hincreasing hnew]
    rcases hcondition with hcovers | hlimit | hfew
    · exact pausesHarmless_of_covered hcovers hnonneg
    · exact pausesHarmless_of_limit_lt_one hwindow hlimit readings
    · exact pausesHarmless_of_few hfew hincreasing hnonneg

theorem expiry_harmless_one_second :
    serve "alice" 2 nanosecondsPerSecond [0, 5, 1000000004] (fun _ => none) =
      serveWithoutExpire "alice" 2 nanosecondsPerSecond [0, 5, 1000000004] fun _ => none :=
  (expiry_harmless_iff "alice" 2 (by decide) rfl).2.mpr (.inl (by decide)) _ (by decide)
    (by decide)

theorem expiry_changes_verdict :
    ¬ serve "alice" 1 1500000000 [0, 1000000000] (fun _ => none) =
      serveWithoutExpire "alice" 1 1500000000 [0, 1000000000] fun _ => none := by
  decide

end NexPulse.RateLimit
