import NexPulse.Aggregate.Exact
import NexPulse.Foundation.ByteOrder
import NexPulse.Query.Leaderboard

/-!
# From a log to the leaderboard

Whatever the order in which the messages of a log are consumed, the aggregator
leaves one database, and the query service answers with its ten highest users.
-/

namespace NexPulse.EndToEnd

open NexPulse.Foundation NexPulse.Foundation.Redis NexPulse.RateLimit NexPulse.Ingest
open NexPulse.Aggregate NexPulse.Query

variable {Body Value : Type*}

/-- The database holds the counts of the log, and nothing else of the aggregator's. -/
structure Exact (codec : Codec Body Value) (log : List (Message Value)) (initial final : Db) :
    Prop where
  counter : ∀ eventType,
    final (typeKey eventType) = counted (carrying codec log "event_type" eventType)
  stored : final leaderboardKey = storeSet (setOf (final leaderboardKey)) none
  score : ∀ userID score, (setOf (final leaderboardKey)).Has userID score ↔
    0 < carrying codec log "user_id" userID ∧ score = carrying codec log "user_id" userID
  other : ∀ key, ¬ AggregateKey key → final key = initial key

section Exact

variable {codec : Codec Body Value} {log : List (Message Value)} {initial final : Db}

theorem exact_of_written (h : Written (log.flatMap (updatesOf codec)) initial final) :
    Exact codec log initial final where
  counter eventType := by rw [h.counter, count_incr]
  stored := by
    obtain ⟨set, hset⟩ := h.leaderboard
    rw [hset, setOf_storeSet]
  score userID score := by rw [h.score, count_zIncrBy]
  other := h.other

theorem Exact.card (h : Exact codec log initial final) :
    (setOf (final leaderboardKey)).card = (users codec log).length := by
  have hnodup : (users codec log).Nodup := List.nodup_dedup _
  rw [SortedSet.card_eq_card_members, ← List.toFinset_card_of_nodup hnodup]
  congr 1
  ext userID
  rw [SortedSet.mem_members_iff, List.mem_toFinset, mem_users]
  constructor
  · rintro ⟨score, hhas⟩
    exact ((h.score userID score).mp hhas).1
  · intro hpos
    exact ⟨_, (h.score userID _).mpr ⟨hpos, rfl⟩⟩

theorem Exact.ranking (h : Exact codec log initial final) (redisErrors : Nat) :
    ∃ ranking, leaderboard .replied final redisErrors = (⟨200, .leaderboard ranking⟩, redisErrors) ∧
      SortedSet.TopRanking
        (fun userID (score : Int) => 0 < carrying codec log "user_id" userID ∧
          score = carrying codec log "user_id" userID)
        (users codec log).length (fun first second => bytes first < bytes second) 10 ranking := by
  have hset : HoldsSet (final leaderboardKey) := h.stored ▸ holdsSet_storeSet _ _
  obtain ⟨ranking, hserved, htop⟩ := leaderboard_replied hset redisErrors
  refine ⟨ranking, hserved, ?_⟩
  have hhas : (setOf (final leaderboardKey)).Has = fun userID (score : Int) =>
      0 < carrying codec log "user_id" userID ∧ score = carrying codec log "user_id" userID := by
    funext userID score
    exact propext (h.score userID score)
  rw [← hhas, ← h.card, bytes_lt_eq]
  exact htop

end Exact

/--
Without failures, the loop consumes every log, and over all permutations of the
log it leaves one database: that of the counts, whose ten highest users the
leaderboard returns.
-/
theorem aggregation_exact (codec : Codec Body Value) (log : List (Message Value)) (initial : Db)
    (hleaderboard : initial leaderboardKey = none)
    (htypes : ∀ eventType, initial (typeKey eventType) = none) :
    ∃ final, Exact codec log initial final ∧
      (∀ order : List (Message Value), order.Perm log →
        (∃ labels state, (∀ label ∈ labels, NoFailure label) ∧
          (consumer codec order).run (Consumer.start initial) labels = some state ∧
          state.Consumed order) ∧
        ∀ labels state, (∀ label ∈ labels, NoFailure label) →
          (consumer codec order).run (Consumer.start initial) labels = some state →
          state.Consumed order → state.db = final) ∧
      ∀ redisErrors, ∃ ranking,
        leaderboard .replied final redisErrors = (⟨200, .leaderboard ranking⟩, redisErrors) ∧
        SortedSet.TopRanking
          (fun userID (score : Int) => 0 < carrying codec log "user_id" userID ∧
            score = carrying codec log "user_id" userID)
          (users codec log).length (fun first second => bytes first < bytes second) 10 ranking := by
  obtain ⟨labels, state, hlabels, hrun, hconsumed⟩ := exists_consumed codec log initial
  have hwritten := written_of_run hleaderboard htypes hlabels hrun hconsumed
  have hexact := exact_of_written hwritten
  refine ⟨state.db, hexact, fun order hperm => ?_, hexact.ranking⟩
  refine ⟨exists_consumed codec order initial, fun otherLabels other hother hrunOther hfinal => ?_⟩
  have hwrittenOther := written_of_run hleaderboard htypes hother hrunOther hfinal
  exact hwrittenOther.unique hwritten fun command => (hperm.flatMap_right _).count_eq command

def twoLogins : List (Message String) := [loginMessage, ⟨"alice", "login"⟩, loginMessage]

theorem aggregation_exact_two_logins :
    ∃ final, Exact loginCodec twoLogins (fun _ => none) final ∧
      final (typeKey "login") = some ⟨.counter 2, none⟩ ∧
      (setOf (final leaderboardKey)).Has "alice" 2 := by
  obtain ⟨final, hexact, -⟩ :=
    aggregation_exact loginCodec twoLogins (fun _ => none) rfl fun _ => rfl
  exact ⟨final, hexact, hexact.counter "login", (hexact.score "alice" 2).mpr (by decide)⟩

end NexPulse.EndToEnd
