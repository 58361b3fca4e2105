import NexPulse.Foundation.ByteOrder
import NexPulse.RateLimit.Limiter

/-!
# Reading the leaderboard

`GetLeaderboard` asks Redis for the ranks from 0 to `count - 1` of a sorted set,
the highest score first; the route answers with the first ten users.
-/

namespace NexPulse.Query

open NexPulse.Foundation NexPulse.Foundation.Redis NexPulse.RateLimit

def zRevRangeWithScores (key : String) (start stop : Int) : Command :=
  ⟨key, .zRevRange start stop⟩

/-- `GetLeaderboard`, with the counter of Redis errors. -/
def getLeaderboard (key : String) (count : Int) (outcome : Outcome) (db : Db)
    (redisErrors : Nat) : Except Error (List (String × Int)) × Nat :=
  -- ZREVRANGE does not look at the clock.
  match ((zRevRangeWithScores key 0 (count - 1)).attempt 0 outcome db).1 with
  | .error error => (.error error, redisErrors + 1)
  | .ranked entries => (.ok entries, redisErrors)
  -- Redis never answers ZREVRANGE with an integer.
  | .int _ => (.ok [], redisErrors)

inductive Body where
  | error (error : Error)
  | leaderboard (entries : List (String × Int))
  deriving DecidableEq

structure Response where
  status : Nat
  body : Body
  deriving DecidableEq

def leaderboard (outcome : Outcome) (db : Db) (redisErrors : Nat) : Response × Nat :=
  match getLeaderboard "leaderboard:users" 10 outcome db redisErrors with
  | (.error error, redisErrors) => (⟨500, .error error⟩, redisErrors)
  | (.ok entries, redisErrors) => (⟨200, .leaderboard entries⟩, redisErrors)

theorem getLeaderboard_replied {key : String} {db : Db} (count : Int) (h : HoldsSet (db key))
    (redisErrors : Nat) :
    getLeaderboard key count .replied db redisErrors =
      (.ok ((setOf (db key)).revRange 0 (count - 1)), redisErrors) := by
  have hreply : ((zRevRangeWithScores key 0 (count - 1)).attempt 0 .replied db).1 =
      .ranked ((setOf (db key)).revRange 0 (count - 1)) := onSortedSet_reply h
  rw [getLeaderboard, hreply]

theorem leaderboard_replied {db : Db} (h : HoldsSet (db "leaderboard:users"))
    (redisErrors : Nat) :
    ∃ ranking, leaderboard .replied db redisErrors = (⟨200, .leaderboard ranking⟩, redisErrors) ∧
      SortedSet.TopRanking (setOf (db "leaderboard:users")).Has
        (setOf (db "leaderboard:users")).card (· < ·) 10 ranking := by
  refine ⟨_, ?_, SortedSet.topRanking_revRange _ (by decide : (0 : Int) < 10)⟩
  rw [leaderboard, getLeaderboard_replied 10 h]

/-! ## Every count -/

/--
`GetLeaderboard` returns the top `count` of a sorted set exactly when `count` is
positive or the set is empty.
-/
theorem getLeaderboard_top_iff {key : String} {db : Db} (hset : HoldsSet (db key)) {count : Int}
    (hcount : 0 ≤ count) (redisErrors : Nat) :
    (∃ ranking, getLeaderboard key count .replied db redisErrors = (.ok ranking, redisErrors) ∧
      SortedSet.TopRanking (setOf (db key)).Has (setOf (db key)).card
        (fun first second => bytes first < bytes second) count.toNat ranking) ↔
      0 < count ∨ (setOf (db key)).card = 0 := by
  rw [← (setOf (db key)).topRanking_revRange_iff hcount, bytes_lt_eq,
    getLeaderboard_replied count hset]
  constructor
  · rintro ⟨ranking, hreply, htop⟩
    obtain rfl : (setOf (db key)).revRange 0 (count - 1) = ranking := by simpa using hreply
    exact htop
  · intro htop
    exact ⟨_, rfl, htop⟩

def threeUsers : Db := fun _ =>
  let set : SortedSet String Int := ∅
  some ⟨.sortedSet (((set.insert "bob" 1).insert "alice" 1).insert "eve" 2), none⟩

theorem getLeaderboard_top_two :
    ∃ ranking, getLeaderboard "leaderboard:users" 2 .replied threeUsers 0 = (.ok ranking, 0) ∧
      SortedSet.TopRanking (setOf (threeUsers "leaderboard:users")).Has
        (setOf (threeUsers "leaderboard:users")).card
        (fun first second => bytes first < bytes second) 2 ranking :=
  (@getLeaderboard_top_iff "leaderboard:users" threeUsers trivial 2 (by decide) 0).mpr
    (.inl (by decide))

theorem getLeaderboard_top_zero :
    ¬ ∃ ranking, getLeaderboard "leaderboard:users" 0 .replied threeUsers 0 = (.ok ranking, 0) ∧
      SortedSet.TopRanking (setOf (threeUsers "leaderboard:users")).Has
        (setOf (threeUsers "leaderboard:users")).card
        (fun first second => bytes first < bytes second) 0 ranking := by
  rintro ⟨ranking, hreply, htop⟩
  have hall : getLeaderboard "leaderboard:users" 0 .replied threeUsers 0 =
      (.ok [("eve", 2), ("bob", 1), ("alice", 1)], 0) := by decide
  obtain rfl : [("eve", 2), ("bob", 1), ("alice", 1)] = ranking := by
    rw [hall] at hreply
    simpa using hreply
  exact absurd htop.length_eq (by decide)

end NexPulse.Query
