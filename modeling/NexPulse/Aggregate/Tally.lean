import NexPulse.Aggregate.Aggregator

/-!
# Tallies of the aggregates

The aggregator writes the counters of the event types and the leaderboard.  A
tally is a number read off these keys to which every update adds a fixed
weight: the score of a user, the sum of all scores, the counter of a type.
-/

namespace NexPulse.Aggregate

open NexPulse.Foundation NexPulse.Foundation.Redis NexPulse.RateLimit NexPulse.Ingest

def AggregateKey (key : String) : Prop :=
  key = leaderboardKey ∨ ∃ eventType, key = typeKey eventType

inductive Update : Command → Prop where
  | incr (eventType : String) : Update ⟨typeKey eventType, .incr⟩
  | zIncrBy (userID : String) : Update ⟨leaderboardKey, .zIncrBy 1 userID⟩

theorem update_of_mem_updates {event : Event} {command : Command} (h : command ∈ updates event) :
    Update command := by
  rcases List.mem_append.mp h with htype | huser
  · split at htype
    · obtain rfl := List.mem_singleton.mp htype
      exact .incr _
    · contradiction
  · split at huser
    · obtain rfl := List.mem_singleton.mp huser
      exact .zIncrBy _
    · contradiction

theorem update_of_mem_updatesOf {Body Value : Type*} {codec : Codec Body Value}
    {message : Message Value} {command : Command} (h : command ∈ updatesOf codec message) :
    Update command := by
  unfold updatesOf at h
  split at h
  · exact update_of_mem_updates h
  · contradiction

/-! ## The keys of the services -/

theorem typeKey_inj {first second : String} : typeKey first = typeKey second ↔ first = second :=
  String.append_right_inj _

theorem leaderboardKey_ne_typeKey (eventType : String) : leaderboardKey ≠ typeKey eventType := by
  intro h
  have hchars := congrArg String.toList h
  simp [leaderboardKey, typeKey] at hchars

theorem userKey_not_aggregate (userID : String) : ¬ AggregateKey (userKey userID) := by
  rintro (h | ⟨eventType, h⟩)
  · have hchars := congrArg String.toList h
    simp [userKey, leaderboardKey] at hchars
  · have hchars := congrArg String.toList h
    simp [userKey, typeKey] at hchars

/-! ## Types of the aggregates -/

structure Typed (db : Db) : Prop where
  leaderboard : HoldsSet (db leaderboardKey)
  counters : ∀ eventType, HoldsCounter (db (typeKey eventType))
  persistent : ∀ key, AggregateKey key → Persistent (db key)

section Typed

variable {db next : Db} {command : Command}

theorem Typed.congr (h : Typed db) (hsame : ∀ key, AggregateKey key → next key = db key) :
    Typed next where
  leaderboard := hsame _ (.inl rfl) ▸ h.leaderboard
  counters eventType := hsame _ (.inr ⟨eventType, rfl⟩) ▸ h.counters eventType
  persistent key hkey := hsame key hkey ▸ h.persistent key hkey

theorem typed_of_new (hleaderboard : db leaderboardKey = none)
    (htypes : ∀ eventType, db (typeKey eventType) = none) : Typed db where
  leaderboard := by rw [hleaderboard]; trivial
  counters eventType := by rw [htypes]; trivial
  persistent key hkey := by
    rcases hkey with rfl | ⟨eventType, rfl⟩
    · rw [hleaderboard]
      exact persistent_none
    · rw [htypes]
      exact persistent_none

theorem Typed.fits (h : Typed db) (hupdate : Update command) : command.Fits db := by
  cases hupdate with
  | incr eventType => exact h.counters eventType
  | zIncrBy userID => exact h.leaderboard

theorem Typed.exec (h : Typed db) (hupdate : Update command) : Typed (command.exec 0 db).2 where
  leaderboard := by
    cases hupdate with
    | incr eventType =>
        rw [Command.exec_other (leaderboardKey_ne_typeKey eventType)]
        exact h.leaderboard
    | zIncrBy userID => exact Command.holdsSet_exec h.leaderboard (by simp)
  counters other := by
    cases hupdate with
    | incr eventType =>
        by_cases hother : other = eventType
        · subst hother
          exact (Command.exec_self 0 ⟨typeKey other, .incr⟩ db) ▸
            (Op.counterOf_incr 0 (h.counters other)).1
        · rw [Command.exec_other fun hkey => hother (typeKey_inj.mp hkey)]
          exact h.counters other
    | zIncrBy userID =>
        rw [Command.exec_other (leaderboardKey_ne_typeKey other).symm]
        exact h.counters other
  persistent key hkey := by
    by_cases hself : key = command.key
    · subst hself
      rw [Command.exec_self]
      refine Op.persistent_apply 0 _ (h.persistent _ hkey) fun seconds => ?_
      cases hupdate <;> simp
    · rw [Command.exec_other hself]
      exact h.persistent key hkey

end Typed

/-! ## Tallies -/

structure Tally where
  read : Db → Int
  weight : Command → Int
  read_congr : ∀ {db next : Db}, (∀ key, AggregateKey key → next key = db key) →
    read next = read db
  read_exec : ∀ {db : Db} {command : Command}, command.Fits db → Update command →
    read (command.exec 0 db).2 = read db + weight command

namespace Tally

def sum (tally : Tally) (commands : List Command) : Int := (commands.map tally.weight).sum

@[simp] theorem sum_nil (tally : Tally) : tally.sum [] = 0 := rfl

@[simp] theorem sum_append (tally : Tally) (first second : List Command) :
    tally.sum (first ++ second) = tally.sum first + tally.sum second := by
  simp [sum]

theorem sum_perm (tally : Tally) {first second : List Command} (h : first.Perm second) :
    tally.sum first = tally.sum second :=
  (h.map _).sum_eq

theorem read_execAll (tally : Tally) {commands : List Command} {db : Db} (h : Typed db)
    (hupdates : ∀ command ∈ commands, Update command) :
    Typed (execAll 0 commands db).2 ∧
      tally.read (execAll 0 commands db).2 = tally.read db + tally.sum commands := by
  induction commands generalizing db with
  | nil => exact ⟨h, (add_zero _).symm⟩
  | cons command commands ih =>
      obtain ⟨hfirst, hrest⟩ := List.forall_mem_cons.mp hupdates
      obtain ⟨htyped, hread⟩ := ih (h.exec hfirst) hrest
      refine ⟨htyped, ?_⟩
      rw [execAll, hread, tally.read_exec (h.fits hfirst) hfirst, sum, sum, List.map_cons,
        List.sum_cons, add_assoc]

theorem read_carriedOut (tally : Tally) {entries : List (Nat × Command)}
    (hupdates : ∀ entry ∈ entries, Update entry.2) (db : Db) :
    tally.read (execAll 0 (entries.map Prod.snd) db).2 =
      tally.read db + tally.sum ((carriedOut 0 entries db).map Prod.snd) := by
  induction entries generalizing db with
  | nil => exact (add_zero _).symm
  | cons entry entries ih =>
      obtain ⟨hfirst, hrest⟩ := List.forall_mem_cons.mp hupdates
      rw [List.map_cons, execAll, ih hrest, carriedOut]
      split
      · next hfits =>
          rw [tally.read_exec hfits hfirst, List.map_cons, sum, sum, List.map_cons,
            List.sum_cons, add_assoc]
      · next hrefused => rw [Command.exec_of_not_fits 0 hrefused]

def userScore (userID : String) : Tally where
  read db := ((setOf (db leaderboardKey)).score? userID).getD 0
  weight command := if command = ⟨leaderboardKey, .zIncrBy 1 userID⟩ then 1 else 0
  read_congr hsame := by rw [hsame _ (.inl rfl)]
  read_exec {db command} h hupdate := by
    cases hupdate with
    | incr eventType =>
        rw [Command.exec_other (leaderboardKey_ne_typeKey eventType)]
        simp [(leaderboardKey_ne_typeKey eventType).symm]
    | zIncrBy other =>
        rw [Command.setOf_exec 0 h (by simp)]
        simp only [Op.onSet, SortedSet.score?_increment]
        by_cases hother : userID = other
        · simp [hother]
        · simp [hother, Ne.symm hother]

def totalScore : Tally where
  read db := (setOf (db leaderboardKey)).total
  weight command := if command.key = leaderboardKey then 1 else 0
  read_congr hsame := by rw [hsame _ (.inl rfl)]
  read_exec {db command} h hupdate := by
    cases hupdate with
    | incr eventType =>
        rw [Command.exec_other (leaderboardKey_ne_typeKey eventType)]
        simp [(leaderboardKey_ne_typeKey eventType).symm]
    | zIncrBy other =>
        rw [Command.setOf_exec 0 h (by simp)]
        simp [Op.onSet, SortedSet.total_increment]

def typeCount (eventType : String) : Tally where
  read db := counterOf (db (typeKey eventType))
  weight command := if command.key = typeKey eventType then 1 else 0
  read_congr hsame := by rw [hsame _ (.inr ⟨eventType, rfl⟩)]
  read_exec {db command} h hupdate := by
    cases hupdate with
    | incr other =>
        by_cases hother : other = eventType
        · subst hother
          rw [Command.exec_self 0 ⟨typeKey other, .incr⟩ db,
            (Op.counterOf_incr 0 h).2]
          simp
        · rw [Command.exec_other fun hkey => hother (typeKey_inj.mp hkey).symm]
          simp [typeKey_inj, hother]
    | zIncrBy userID =>
        rw [Command.exec_other (leaderboardKey_ne_typeKey eventType).symm]
        simp [leaderboardKey_ne_typeKey]

theorem sum_flatMap_updates {tally : Tally} {p : Event → Prop} [DecidablePred p]
    (h : ∀ event, tally.sum (updates event) = if p event then 1 else 0) (events : List Event) :
    tally.sum (events.flatMap updates) = events.countP p := by
  induction events with
  | nil => rfl
  | cons event events ih =>
      rw [List.flatMap_cons, sum_append, ih, h, List.countP_cons]
      by_cases hp : p event <;> simp [hp, add_comm]

theorem userScore_updates (userID : String) (event : Event) :
    (userScore userID).sum (updates event) =
      if event.string? "user_id" = some userID then 1 else 0 := by
  unfold updates
  cases event.string? "event_type" <;> cases event.string? "user_id" <;>
    simp [sum, userScore, (leaderboardKey_ne_typeKey _).symm]

theorem totalScore_updates (event : Event) :
    totalScore.sum (updates event) = if (event.string? "user_id").isSome then 1 else 0 := by
  unfold updates
  cases event.string? "event_type" <;> cases event.string? "user_id" <;>
    simp [sum, totalScore, (leaderboardKey_ne_typeKey _).symm]

theorem typeCount_updates (eventType : String) (event : Event) :
    (typeCount eventType).sum (updates event) =
      if event.string? "event_type" = some eventType then 1 else 0 := by
  unfold updates
  cases event.string? "event_type" <;> cases event.string? "user_id" <;>
    simp [sum, typeCount, leaderboardKey_ne_typeKey, typeKey_inj]

theorem userScore_sum_eq_count (userID : String) (commands : List Command) :
    (userScore userID).sum commands = commands.count ⟨leaderboardKey, .zIncrBy 1 userID⟩ := by
  induction commands with
  | nil => rfl
  | cons command commands ih =>
      rw [List.count_cons, Nat.cast_add, ← ih, sum, sum, List.map_cons, List.sum_cons]
      by_cases hself : command = ⟨leaderboardKey, .zIncrBy 1 userID⟩
      · simp [userScore, hself, add_comm]
      · simp [userScore, hself]

end Tally

end NexPulse.Aggregate
