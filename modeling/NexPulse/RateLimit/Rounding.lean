import NexPulse.Foundation.Binary64
import NexPulse.RateLimit.Expiry

/-!
# Scores as doubles

Redis keeps a score as a double, and so does the bound of the removal once it
is parsed.  Both are rounded on their own, and rounding is monotone, so the
limiter never keeps what it should remove; but it loses an entry of the window
that is rounded onto the score of the window's start.
-/

namespace NexPulse.RateLimit

open NexPulse.Foundation NexPulse.Foundation.Redis

/-- The calls of `serve` with `float64(now)` as the score and the parsed bound. -/
def serveRounded : String → Int → Int → List Int → Db → List (Int × Except Error Bool) :=
  serveCommands Binary64.ofInt true

/-- In the window of the call at `now`, but stored under the score of the window's start. -/
def Lost (window now reading : Int) : Prop :=
  now - window < reading ∧ Binary64.ofInt reading = Binary64.ofInt (now - window)

instance (window now reading : Int) : Decidable (Lost window now reading) :=
  inferInstanceAs (Decidable (_ ∧ _))

/--
No call is let through for a loss: it has at most `limit` readings in its
window, with its own and back to the last pause of the time to live, or more
than `limit` of them are not lost.
-/
def RoundingHarmless (limit window : Int) (readings : List Int) : Prop :=
  ∀ index now, readings[index]? = some now →
    let recent := sincePause (timeToLive window) now (readings.take index).reverse
    let inWindow := recent.countP (fun reading => now - window < reading) + 1
    (inWindow : Int) ≤ limit ∨ limit + recent.countP (fun reading => Lost window now reading) <
      inWindow

/-! ## Runs -/

section Runs

variable {limit window now : Int} {recent readings : List Int}

theorem monotone_ofInt : Monotone Binary64.ofInt := fun _ _ => Binary64.ofInt_mono

theorem pruned_id_iff {reading : Int} (hnonneg : 0 ≤ reading) :
    ¬ Pruned id window now reading ↔ now - window < reading := by
  unfold Pruned
  simp only [id]
  omega

theorem pruned_ofInt_iff {reading : Int} (hnonneg : 0 ≤ reading) :
    ¬ Pruned Binary64.ofInt window now reading ↔
      now - window < reading ∧ ¬ Lost window now reading := by
  have hscore := Binary64.ofInt_nonneg hnonneg
  unfold Pruned Lost
  constructor
  · intro hkept
    have hlt : Binary64.ofInt (now - window) < Binary64.ofInt reading := by
      by_contra hle
      exact hkept ⟨hscore, not_lt.mp hle⟩
    exact ⟨monotone_ofInt.reflect_lt hlt, fun hlost => hlt.ne' hlost.2⟩
  · rintro ⟨hwithin, hfound⟩ ⟨-, hle⟩
    have hge : Binary64.ofInt (now - window) ≤ Binary64.ofInt reading :=
      Binary64.ofInt_mono hwithin.le
    exact hfound ⟨hwithin, le_antisymm hle hge⟩

theorem countP_add_lost (hnonneg : ∀ reading ∈ recent, 0 ≤ reading) :
    recent.countP (fun reading => ¬ Pruned Binary64.ofInt window now reading) +
        recent.countP (fun reading => Lost window now reading) =
      recent.countP fun reading => now - window < reading := by
  induction recent with
  | nil => rfl
  | cons reading recent ih =>
      obtain ⟨hreading, hrest⟩ := List.forall_mem_cons.mp hnonneg
      have hkept : ¬ Pruned Binary64.ofInt window now reading ↔
          now - window < reading ∧ ¬ Lost window now reading := pruned_ofInt_iff hreading
      have hlost : Lost window now reading → now - window < reading := And.left
      have hone : (if ¬ Pruned Binary64.ofInt window now reading then 1 else 0) +
          (if Lost window now reading then 1 else 0) =
            if now - window < reading then 1 else 0 := by
        rw [if_congr hkept rfl rfl]
        split_ifs <;> tauto
      have hrest := ih hrest
      simp only [List.countP_cons, decide_eq_true_eq] at hrest ⊢
      omega

theorem serveRounded_eq_serve_iff (userID : String) (limit window : Int)
    (hincreasing : readings.Pairwise (· < ·)) (hnonneg : ∀ reading ∈ readings, 0 ≤ reading)
    {db : Db} (hnew : db (userKey userID) = none) :
    serveRounded userID limit window readings db = serve userID limit window readings db ↔
      RoundingHarmless limit window readings := by
  rw [serve_eq_serveCommands, serveRounded, serveCommands_eq_iff monotone_ofInt monotone_id
    true true userID limit window hincreasing hnew]
  refine forall_congr' fun index => forall_congr' fun now => imp_congr_right fun _ => ?_
  have hpositive : ∀ reading ∈
      sincePause (timeToLive window) now (readings.take index).reverse, 0 ≤ reading := by
    intro reading hreading
    have hearlier := (sincePause_sublist _ _ _).subset hreading
    exact hnonneg reading (List.mem_of_mem_take (List.mem_reverse.mp hearlier))
  have hexact : (sincePause (timeToLive window) now (readings.take index).reverse).countP
      (fun reading => ¬ Pruned id window now reading) =
        (sincePause (timeToLive window) now (readings.take index).reverse).countP
          fun reading => now - window < reading :=
    List.countP_congr fun reading hreading => by
      simpa using pruned_id_iff (hpositive reading hreading)
  have hsplit := @countP_add_lost window now _ hpositive
  simp only [counted, kept, if_true, hexact]
  omega

end Runs

/-! ## Windows and limits that no rounding can harm -/

section Bounds

variable {limit window now : Int} {earlier readings : List Int}

theorem sincePause_eq_self {ttl : Int} (hdescending : (now :: earlier).Pairwise (· > ·))
    (h : ∀ reading ∈ earlier, now < reading + ttl) : sincePause ttl now earlier = earlier := by
  induction earlier generalizing now with
  | nil => rfl
  | cons last earlier ih =>
      obtain ⟨hnow, hrest⟩ := List.pairwise_cons.mp hdescending
      have hlast := h last List.mem_cons_self
      rw [sincePause, if_neg (not_le.mpr hlast), ih hrest]
      intro reading hreading
      have hlt := hnow last List.mem_cons_self
      have := h reading (List.mem_cons_of_mem _ hreading)
      omega

theorem lost_le_inWindow (window now : Int) (recent : List Int) :
    recent.countP (fun reading => Lost window now reading) ≤
      recent.countP fun reading => now - window < reading := by
  refine List.countP_mono_left fun reading _ hlost => ?_
  simpa using (of_decide_eq_true hlost).1

theorem not_lost_of_wide {reading : Int} (hwide : 2 ^ 63 - 2 ^ 53 ≤ window)
    (hnow : now < 2 ^ 63) (hnonneg : 0 ≤ reading) : ¬ Lost window now reading := by
  rintro ⟨hwithin, hsame⟩
  by_cases hlow : -2 ^ 53 ≤ now - window
  · have hstart := Binary64.ofInt_of_le hlow (by omega)
    have hnext := @Binary64.ofInt_of_le (now - window + 1) (by omega) (by omega)
    have hmono : Binary64.ofInt (now - window + 1) ≤ Binary64.ofInt reading :=
      Binary64.ofInt_mono (by omega)
    omega
  · have hlowest : Binary64.ofInt (now - window) ≤ Binary64.ofInt (-2 ^ 53) :=
      Binary64.ofInt_mono (by omega)
    rw [Binary64.ofInt_of_le le_rfl (by omega)] at hlowest
    have := Binary64.ofInt_nonneg hnonneg
    omega

theorem roundingHarmless_of (hincreasing : readings.Pairwise (· < ·))
    (hrange : ∀ reading ∈ readings, 0 ≤ reading ∧ reading < 2 ^ 63)
    (h : limit < 1 ∨ window ≤ limit ∨ 2 ^ 63 - 2 ^ 53 ≤ window) :
    RoundingHarmless limit window readings := by
  intro index now hindex
  let recent := sincePause (timeToLive window) now (readings.take index).reverse
  have hsub : recent.reverse.Sublist (readings.take index) := by
    rw [← List.reverse_reverse (readings.take index), List.reverse_sublist]
    exact sincePause_sublist _ _ _
  have hnow := hrange now (List.mem_of_getElem? hindex)
  have hearlier : ∀ reading ∈ recent, 0 ≤ reading ∧ reading < now := by
    intro reading hreading
    have hmem := hsub.subset (List.mem_reverse.mpr hreading)
    refine ⟨(hrange reading (List.mem_of_mem_take hmem)).1, ?_⟩
    rw [Pool.eq_take_append_cons_drop hindex] at hincreasing
    exact (List.pairwise_append.mp hincreasing).2.2 reading hmem now List.mem_cons_self
  have hlost := lost_le_inWindow window now recent
  change (((recent.countP fun reading => now - window < reading) + 1 : Nat) : Int) ≤ limit ∨
    limit + (recent.countP fun reading => Lost window now reading) <
      ((recent.countP fun reading => now - window < reading) + 1 : Nat)
  rcases h with hlimit | hfew | hwide
  · omega
  · have hin : recent.reverse.countP (fun reading => now - window < reading) ≤
        (now - 1 - (now - window)).toNat := by
      have hsorted := hincreasing.sublist (hsub.trans (List.take_sublist _ _))
      refine countP_le_of_within hsorted _ _ fun reading hreading hwithin => ?_
      have hlt := (hearlier reading (List.mem_reverse.mp hreading)).2
      exact ⟨of_decide_eq_true hwithin, by omega⟩
    rw [List.countP_reverse] at hin
    omega
  · have hnone : recent.countP (fun reading => Lost window now reading) = 0 := by
      refine List.countP_eq_zero.mpr fun reading hreading hlost => ?_
      exact not_lost_of_wide hwide hnow.2 (hearlier reading hreading).1 (of_decide_eq_true hlost)
    omega

end Bounds

def crowd (limit window : Int) : List Int :=
  (2 ^ 53 + 1) ::
    (List.range limit.toNat).map fun index : Nat => 2 ^ 53 + window - limit + 1 + index

section Crowd

variable {limit window : Int}

theorem crowd_increasing (hroom : limit < window) : (crowd limit window).Pairwise (· < ·) := by
  refine List.pairwise_cons.mpr ⟨?_, ?_⟩
  · simp only [List.mem_map]
    rintro _ ⟨index, -, rfl⟩
    omega
  · rw [List.pairwise_map]
    exact List.pairwise_lt_range.imp fun h => by omega

theorem crowd_range (hlimit : 1 ≤ limit) (hroom : limit < window)
    (hshort : window < 2 ^ 63 - 2 ^ 53) :
    ∀ reading ∈ crowd limit window, 0 ≤ reading ∧ reading < 2 ^ 63 := by
  simp only [crowd, List.mem_cons, List.mem_map, List.mem_range]
  rintro _ (rfl | ⟨index, hindex, rfl⟩) <;> omega

theorem not_roundingHarmless_crowd (hcovers : window ≤ timeToLive window) (hlimit : 1 ≤ limit)
    (hroom : limit < window) : ¬ RoundingHarmless limit window (crowd limit window) := by
  intro hharmless
  obtain ⟨more, hmore⟩ : ∃ more, limit.toNat = more + 1 := ⟨limit.toNat - 1, by omega⟩
  let now := 2 ^ 53 + window
  have hindex : (crowd limit window)[limit.toNat]? = some now := by
    rw [crowd, hmore, List.getElem?_cons_succ, List.getElem?_map,
      List.getElem?_range (Nat.lt_succ_self more), Option.map_some, Option.some.injEq]
    simp only [now]
    omega
  let earlier := ((crowd limit window).take limit.toNat).reverse
  have hdescending : (now :: earlier).Pairwise (· > ·) := by
    have hsorted := crowd_increasing hroom
    rw [Pool.eq_take_append_cons_drop hindex, List.pairwise_append] at hsorted
    refine List.pairwise_cons.mpr ⟨fun reading hreading => ?_, List.pairwise_reverse.mpr hsorted.1⟩
    exact hsorted.2.2 reading (List.mem_reverse.mp hreading) now List.mem_cons_self
  have hwithin : ∀ reading ∈ earlier, now - window < reading := by
    intro reading hreading
    have hmem := List.mem_of_mem_take (List.mem_reverse.mp hreading)
    simp only [crowd, List.mem_cons, List.mem_map, List.mem_range] at hmem
    simp only [now]
    rcases hmem with rfl | ⟨index, -, rfl⟩ <;> omega
  have hall : sincePause (timeToLive window) now earlier = earlier :=
    sincePause_eq_self hdescending fun reading hreading => by
      have := hwithin reading hreading
      omega
  have hcall := hharmless limit.toNat now hindex
  change (((sincePause (timeToLive window) now earlier).countP
      (fun reading => now - window < reading) + 1 : Nat) : Int) ≤ limit ∨
    limit + (sincePause (timeToLive window) now earlier).countP
      (fun reading => Lost window now reading) < _ at hcall
  have hlength : earlier.length = limit.toNat := by
    simp [earlier, crowd]
  have hin : earlier.countP (fun reading => now - window < reading) = limit.toNat := by
    rw [List.countP_eq_length.mpr (by simpa using hwithin), hlength]
  have hlost : 0 < earlier.countP fun reading => Lost window now reading := by
    refine List.countP_pos_iff.mpr ⟨2 ^ 53 + 1, ?_, ?_⟩
    · simp [earlier, crowd, hmore]
    · have hstart : now - window = 2 ^ 53 := by simp [now]
      refine decide_eq_true ?_
      unfold Lost
      rw [hstart]
      decide
  rw [hall, hin] at hcall
  omega

end Crowd

/--
The rounded limiter gives the verdicts of the exact one in a run exactly when
no call is let through for a loss; and, where the time to live covers the
window, in all runs of 64-bit readings exactly when no call is let through, the
window holds no more than `limit` readings, or it reaches 2^63 - 2^53.
-/
theorem rounding_harmless_iff (userID : String) (limit window : Int) {db : Db}
    (hnew : db (userKey userID) = none) :
    (∀ readings : List Int, readings.Pairwise (· < ·) →
      (∀ reading ∈ readings, 0 ≤ reading ∧ reading < 2 ^ 63) →
        (serveRounded userID limit window readings db = serve userID limit window readings db ↔
          RoundingHarmless limit window readings)) ∧
    (window ≤ timeToLive window →
      ((∀ readings : List Int, readings.Pairwise (· < ·) →
        (∀ reading ∈ readings, 0 ≤ reading ∧ reading < 2 ^ 63) →
          serveRounded userID limit window readings db = serve userID limit window readings db) ↔
        limit < 1 ∨ window ≤ limit ∨ 2 ^ 63 - 2 ^ 53 ≤ window)) := by
  have hrun (readings : List Int) (hincreasing : readings.Pairwise (· < ·))
      (hrange : ∀ reading ∈ readings, 0 ≤ reading ∧ reading < 2 ^ 63) :
      serveRounded userID limit window readings db = serve userID limit window readings db ↔
        RoundingHarmless limit window readings :=
    serveRounded_eq_serve_iff userID limit window hincreasing
      (fun reading hreading => (hrange reading hreading).1) hnew
  refine ⟨hrun, fun hcovers => ⟨fun hsame => ?_, fun hcondition readings hincreasing hrange => ?_⟩⟩
  · by_contra hroom
    obtain ⟨hlimit, hfew, hshort⟩ : ¬ limit < 1 ∧ ¬ window ≤ limit ∧
        ¬ 2 ^ 63 - 2 ^ 53 ≤ window := by simpa only [not_or] using hroom
    have hincreasing := crowd_increasing (not_le.mp hfew)
    have hrange := crowd_range (not_lt.mp hlimit) (not_le.mp hfew) (not_le.mp hshort)
    exact not_roundingHarmless_crowd hcovers (not_lt.mp hlimit) (not_le.mp hfew)
      ((hrun _ hincreasing hrange).mp (hsame _ hincreasing hrange))
  · exact (hrun readings hincreasing hrange).mpr (roundingHarmless_of hincreasing hrange hcondition)

theorem rounding_harmless_before_2_53 :
    serveRounded "alice" 1 nanosecondsPerSecond [5, 1000000004, 1000000005] (fun _ => none) =
      serve "alice" 1 nanosecondsPerSecond [5, 1000000004, 1000000005] fun _ => none :=
  ((rounding_harmless_iff "alice" 1 nanosecondsPerSecond rfl).1 _ (by decide) (by decide)).mpr (by
    intro index now hindex
    match index, hindex with
    | 0, rfl | 1, rfl | 2, rfl => decide)

/--
At limit one, a call that comes one nanosecond less than a second after the
first: the first is rounded onto the start of the window and lost.
-/
theorem rounding_changes_verdict :
    ¬ serveRounded "alice" 1 nanosecondsPerSecond
        [1700000000000000001, 1700000001000000000] (fun _ => none) =
      serve "alice" 1 nanosecondsPerSecond
        [1700000000000000001, 1700000001000000000] fun _ => none := by
  decide

end NexPulse.RateLimit
