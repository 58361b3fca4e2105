import NexPulse.Ingest.Event
import NexPulse.RateLimit.Limiter

/-!
# The aggregator loop

One iteration of the consume loop of the aggregator, stopped between two of its
actions.  A message that does not parse ends the iteration early; every other
one queues at most two commands in a pipeline, and the iteration goes on to the
processed counter whether the pipeline failed or not.
-/

namespace NexPulse.Aggregate

open NexPulse.Foundation NexPulse.Foundation.Redis NexPulse.RateLimit NexPulse.Ingest

def typeKey (eventType : String) : String := "agg:event_type:" ++ eventType

def leaderboardKey : String := "leaderboard:users"

/-- The commands that the iteration queues for an event. -/
def updates (event : Event) : List Command :=
  (match event.string? "event_type" with
    | some eventType => [⟨typeKey eventType, .incr⟩]
    | none => []) ++
  (match event.string? "user_id" with
    | some userID => [⟨leaderboardKey, .zIncrBy 1 userID⟩]
    | none => [])

structure Metrics where
  kafkaMessagesConsumed : Nat
  eventsProcessed : Nat
  redisErrors : Nat

def Metrics.init : Metrics := ⟨0, 0, 0⟩

inductive Point (Value : Type*) where
  | head
  | consumed (message : Message Value)
  | parsing (message : Message Value)
  -- In `pipe.Exec`, with the commands that are still to be executed.
  | executing (message : Message Value) (queued : List Command) (replies : List Reply)
  | failing
  | processing

structure Loop (Value : Type*) where
  point : Point Value
  metrics : Metrics

variable {Body Value : Type*}

def Loop.init : Loop Value := ⟨.head, .init⟩

/--
The next action of the iteration.  `outcome` is what happens to a command of
the pipeline; after a failure Redis executes none of the later ones.
-/
def Loop.work (codec : Codec Body Value) (outcome : Outcome) (loop : Loop Value) (db : Db) :
    Option (Loop Value × Db) :=
  let goto (point : Point Value) : Loop Value := { loop with point := point }
  match loop.point with
  | .head => none
  | .consumed message =>
      some (⟨.parsing message, { loop.metrics with
        kafkaMessagesConsumed := loop.metrics.kafkaMessagesConsumed + 1 }⟩, db)
  | .parsing message =>
      match codec.unmarshal message.value with
      | none => some (goto .head, db)
      | some event => some (goto (.executing message (updates event) []), db)
  | .executing message (command :: queued) replies =>
      -- INCR and ZINCRBY do not look at the clock.
      let result := command.attempt 0 outcome db
      let rest := if outcome = .replied then queued else []
      some (goto (.executing message rest (replies ++ [result.1])), result.2)
  | .executing _ [] replies =>
      match firstError replies with
      | some _ => some (goto .failing, db)
      | none => some (goto .processing, db)
  | .failing =>
      some (⟨.processing, { loop.metrics with redisErrors := loop.metrics.redisErrors + 1 }⟩, db)
  | .processing =>
      some (⟨.head, { loop.metrics with
        eventsProcessed := loop.metrics.eventsProcessed + 1 }⟩, db)

/-! ## What an action executes and what it leaves to be executed -/

def updatesOf (codec : Codec Body Value) (message : Message Value) : List Command :=
  match codec.unmarshal message.value with
  | some event => updates event
  | none => []

def Point.pending (codec : Codec Body Value) : Point Value → List Command
  | .consumed message | .parsing message => updatesOf codec message
  | .executing _ queued _ => queued
  | .head | .failing | .processing => []

def Point.executes (outcome : Outcome) : Point Value → List Command
  | .executing _ (command :: _) _ => if outcome = .notExecuted then [] else [command]
  | _ => []

/-- The next action drops no command of the pipeline. -/
def Point.Kept (outcome : Outcome) : Point Value → Prop
  | .executing _ (_ :: queued) _ =>
      outcome = .replied ∨ (outcome = .replyLost ∧ queued = [])
  | _ => True

instance (outcome : Outcome) (point : Point Value) : Decidable (point.Kept outcome) := by
  unfold Point.Kept
  split <;> infer_instance

theorem Point.kept_replied (point : Point Value) : point.Kept .replied := by
  unfold Point.Kept
  split
  · exact .inl rfl
  · trivial

def Point.message? : Point Value → Option (Message Value)
  | .consumed message | .parsing message | .executing message _ _ => some message
  | .head | .failing | .processing => none

def Point.uncounted (codec : Codec Body Value) : Point Value → Nat
  | .head => 0
  | .consumed message | .parsing message => if (codec.unmarshal message.value).isSome then 1 else 0
  | .executing .. | .failing | .processing => 1

structure Worked (codec : Codec Body Value) (outcome : Outcome) (loop next : Loop Value)
    (db after : Db) : Prop where
  db_eq : after = (execAll 0 (loop.point.executes outcome) db).2
  kept : loop.point.Kept outcome →
    loop.point.executes outcome ++ next.point.pending codec = loop.point.pending codec
  dropped : ¬ loop.point.Kept outcome →
    (loop.point.executes outcome ++ next.point.pending codec).Sublist (loop.point.pending codec) ∧
      loop.point.executes outcome ++ next.point.pending codec ≠ loop.point.pending codec
  message : ∀ message, next.point.message? = some message → loop.point.message? = some message
  counted : next.metrics.eventsProcessed + next.point.uncounted codec =
    loop.metrics.eventsProcessed + loop.point.uncounted codec

theorem Loop.work_spec {codec : Codec Body Value} {outcome : Outcome} {loop next : Loop Value}
    {db after : Db} (h : loop.work codec outcome db = some (next, after)) :
    Worked codec outcome loop next db after := by
  obtain ⟨point, metrics⟩ := loop
  cases point with
  | head => contradiction
  | consumed message =>
      obtain ⟨rfl, rfl⟩ := by simpa [work] using h
      exact ⟨rfl, fun _ => rfl, fun hdropped => absurd trivial hdropped, fun _ => id, rfl⟩
  | parsing message =>
      cases hparsed : codec.unmarshal message.value with
      | none =>
          obtain ⟨rfl, rfl⟩ := by simpa [work, hparsed] using h
          refine ⟨rfl, fun _ => ?_, fun hdropped => absurd trivial hdropped,
            by simp [Point.message?], ?_⟩
          · simp [Point.executes, Point.pending, updatesOf, hparsed]
          · simp [Point.uncounted, hparsed]
      | some event =>
          obtain ⟨rfl, rfl⟩ := by simpa [work, hparsed] using h
          refine ⟨rfl, fun _ => ?_, fun hdropped => absurd trivial hdropped, fun _ => id, ?_⟩
          · simp [Point.executes, Point.pending, updatesOf, hparsed]
          · simp [Point.uncounted, hparsed]
  | executing message queued replies =>
      cases queued with
      | nil =>
          cases herror : firstError replies with
          | none =>
              obtain ⟨rfl, rfl⟩ := by simpa [work, herror] using h
              exact ⟨rfl, fun _ => rfl, fun hdropped => absurd trivial hdropped,
                by simp [Point.message?], rfl⟩
          | some error =>
              obtain ⟨rfl, rfl⟩ := by simpa [work, herror] using h
              exact ⟨rfl, fun _ => rfl, fun hdropped => absurd trivial hdropped,
                by simp [Point.message?], rfl⟩
      | cons command queued =>
          obtain ⟨rfl, rfl⟩ := by simpa [work] using h
          cases outcome with
          | replied =>
              exact ⟨rfl, fun _ => rfl, fun hdropped => absurd (.inl rfl) hdropped, fun _ => id,
                rfl⟩
          | replyLost =>
              refine ⟨rfl, ?_, ?_, fun _ => id, rfl⟩
              · rintro (hreplied | ⟨-, rfl⟩)
                · contradiction
                · rfl
              · intro hdropped
                have hmore : queued ≠ [] := fun hnil => hdropped (.inr ⟨rfl, hnil⟩)
                simpa [Point.executes, Point.pending] using hmore.symm
          | notExecuted =>
              refine ⟨rfl, ?_, ?_, fun _ => id, rfl⟩
              · rintro (hreplied | ⟨hlost, -⟩) <;> contradiction
              · simp [Point.executes, Point.pending]
  | failing =>
      obtain ⟨rfl, rfl⟩ := by simpa [work] using h
      exact ⟨rfl, fun _ => rfl, fun hdropped => absurd trivial hdropped,
        by simp [Point.message?], rfl⟩
  | processing =>
      obtain ⟨rfl, rfl⟩ := by simpa [work] using h
      exact ⟨rfl, fun _ => rfl, fun hdropped => absurd trivial hdropped,
        by simp [Point.message?], rfl⟩

end NexPulse.Aggregate
