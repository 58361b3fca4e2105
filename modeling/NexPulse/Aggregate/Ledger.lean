import NexPulse.Aggregate.Exact
import Mathlib.Tactic.Ring

/-!
# The ledger of the consume loop

A failing pipeline drops the commands that Redis has not executed; a crash
abandons those that Redis has not received and goes back to the committed
offset, from where the messages are delivered again.  Whatever fails in a run,
the commands executed, under way and lost are those that the messages consumed
and the messages delivered again call for.
-/

namespace NexPulse.Aggregate

open NexPulse.Foundation NexPulse.Foundation.Redis NexPulse.RateLimit NexPulse.Ingest

variable {Body Value : Type*}

/-- The commands of the pipeline that are not executed when the next one fails. -/
def Point.drops (outcome : Outcome) : Point Value → List Command
  | .executing _ (command :: queued) _ =>
      match outcome with
      | .replied => []
      | .replyLost => queued
      | .notExecuted => command :: queued
  | _ => []

def Consumer.loses (codec : Codec Body Value) (state : Consumer Value) : Action → List Command
  | .work outcome => state.loop.point.drops outcome
  | .crash received =>
      (state.loop.point.pending codec).drop (state.loop.point.inFlight.take received).length
  | .read | .readError | .flush _ => []

def Consumer.redelivers (log : List (Message Value)) (state : Consumer Value) :
    Action → List (Message Value)
  | .crash _ => (log.take state.position).drop state.committed
  | .read | .readError | .work _ | .flush _ => []

section Step

variable {codec : Codec Body Value} {log : List (Message Value)} {state next : Consumer Value}
  {action : Action}

theorem Point.pending_head (codec : Codec Body Value) :
    (.head : Point Value).pending codec = [] := rfl

theorem Loop.work_drops {outcome : Outcome} {loop next : Loop Value} {db after : Db}
    (h : loop.work codec outcome db = some (next, after)) :
    loop.point.executes outcome ++ next.point.pending codec ++ loop.point.drops outcome =
      loop.point.pending codec := by
  obtain ⟨point, metrics⟩ := loop
  cases point with
  | head => contradiction
  | consumed message =>
      obtain ⟨rfl, rfl⟩ := by simpa [work] using h
      simp [Point.executes, Point.pending, Point.drops]
  | parsing message =>
      cases hparsed : codec.unmarshal message.value with
      | none =>
          obtain ⟨rfl, rfl⟩ := by simpa [work, hparsed] using h
          simp [Point.executes, Point.pending, Point.drops, updatesOf, hparsed]
      | some event =>
          obtain ⟨rfl, rfl⟩ := by simpa [work, hparsed] using h
          simp [Point.executes, Point.pending, Point.drops, updatesOf, hparsed]
  | executing message queued replies =>
      cases queued with
      | nil =>
          cases herror : firstError replies with
          | none =>
              obtain ⟨rfl, rfl⟩ := by simpa [work, herror] using h
              rfl
          | some error =>
              obtain ⟨rfl, rfl⟩ := by simpa [work, herror] using h
              rfl
      | cons command queued =>
          obtain ⟨rfl, rfl⟩ := by simpa [work] using h
          cases outcome <;> simp [Point.executes, Point.pending, Point.drops]
  | failing =>
      obtain ⟨rfl, rfl⟩ := by simpa [work] using h
      rfl
  | processing =>
      obtain ⟨rfl, rfl⟩ := by simpa [work] using h
      rfl

theorem Consumer.balance_step (hreading : state.Reading log)
    (hstep : (consumer codec log).step state action = some next) :
    (next.applied.map Prod.snd ++ next.loop.point.pending codec ++ state.loses codec action ++
        (log.take state.position).flatMap (updatesOf codec)).Perm
      (state.applied.map Prod.snd ++ state.loop.point.pending codec ++
        (log.take next.position).flatMap (updatesOf codec) ++
        (state.redelivers log action).flatMap (updatesOf codec)) := by
  cases action with
  | work outcome =>
      obtain ⟨⟨loop, db⟩, hwork, rfl⟩ := Option.map_eq_some_iff.mp hstep
      refine .of_eq ?_
      simp only [← Loop.work_drops hwork, loses, redelivers, List.map_append, Consumer.snd_tag,
        List.append_assoc, List.flatMap_nil, List.append_nil]
  | read =>
      cases stepped_of_step hstep with
      | read message hhead hfound =>
          have htake : log.take (state.position + 1) = log.take state.position ++ [message] := by
            rw [List.take_add_one, hfound]
            rfl
          simp only [loses, redelivers, hhead, Point.pending, htake, List.flatMap_append,
            List.flatMap_singleton, List.flatMap_nil, List.append_nil, List.append_assoc]
          exact List.perm_append_comm.append_left _
  | readError =>
      cases stepped_of_step hstep
      simp [loses, redelivers]
  | flush offset =>
      cases stepped_of_step hstep
      simp [loses, redelivers]
  | crash received =>
      obtain rfl := Option.some.inj hstep
      have hback : log.take state.position =
          log.take state.committed ++ (log.take state.position).drop state.committed := by
        conv_lhs => rw [← List.take_append_drop state.committed (log.take state.position)]
        rw [List.take_take, min_eq_left hreading.committed_le]
      have hpending := @Point.inFlight_pending _ _ codec state.loop.point received
      refine .of_eq ?_
      simp only [loses, redelivers, crash, Loop.init, Point.pending_head, List.map_append,
        Consumer.snd_tag, List.append_nil]
      conv_lhs => rw [hback]
      conv_rhs => rw [← hpending]
      simp only [List.flatMap_append, List.append_assoc]

/-! ## The commands under way -/

theorem nodup_updates (event : Event) : (updates event).Nodup := by
  unfold updates
  cases event.string? "event_type" <;> cases event.string? "user_id" <;>
    simp [(leaderboardKey_ne_typeKey _).symm]

structure Point.Proper (codec : Codec Body Value) (point : Point Value) : Prop where
  nodup : (point.pending codec).Nodup
  updates : ∀ command ∈ point.pending codec, Update command

theorem Point.proper_head (codec : Codec Body Value) : (.head : Point Value).Proper codec :=
  ⟨List.nodup_nil, fun _ hmem => absurd hmem List.not_mem_nil⟩

theorem Point.proper_consumed (codec : Codec Body Value) (message : Message Value) :
    (.consumed message : Point Value).Proper codec where
  nodup := by
    rw [pending, updatesOf]
    split
    · exact nodup_updates _
    · exact List.nodup_nil
  updates _ hmem := update_of_mem_updatesOf hmem

theorem Point.Proper.step (h : state.loop.point.Proper codec)
    (hstep : (consumer codec log).step state action = some next) :
    next.loop.point.Proper codec := by
  cases action with
  | work outcome =>
      obtain ⟨⟨loop, db⟩, hwork, rfl⟩ := Option.map_eq_some_iff.mp hstep
      have hsub : (loop.point.pending codec).Sublist (state.loop.point.pending codec) := by
        rw [← Loop.work_drops hwork]
        exact (List.sublist_append_right _ _).trans (List.sublist_append_left _ _)
      exact ⟨h.nodup.sublist hsub, fun command hmem => h.updates command (hsub.subset hmem)⟩
  | read =>
      cases stepped_of_step hstep with
      | read message hhead hfound => exact proper_consumed codec message
  | readError =>
      cases stepped_of_step hstep
      exact h
  | flush offset =>
      cases stepped_of_step hstep
      exact h
  | crash received =>
      obtain rfl := Option.some.inj hstep
      exact proper_head codec

end Step

/-! ## The figures that the loop keeps -/

inductive Figure where
  | score (userID : String)
  | counter (eventType : String)

namespace Figure

def tally : Figure → Tally
  | score userID => .userScore userID
  | counter eventType => .typeCount eventType

def read (figure : Figure) (db : Db) : Int := figure.tally.read db

def raise : Figure → Command
  | score userID => ⟨leaderboardKey, .zIncrBy 1 userID⟩
  | counter eventType => ⟨typeKey eventType, .incr⟩

def field : Figure → String
  | score _ => "user_id"
  | counter _ => "event_type"

def text : Figure → String
  | score userID => userID
  | counter eventType => eventType

def raised (codec : Codec Body Value) (figure : Figure) (log : List (Message Value)) : Nat :=
  carrying codec log figure.field figure.text

theorem read_congr (figure : Figure) {db next : Db}
    (hsame : ∀ key, AggregateKey key → next key = db key) : figure.read next = figure.read db :=
  figure.tally.read_congr hsame

theorem count_raise (codec : Codec Body Value) (figure : Figure) (log : List (Message Value)) :
    (log.flatMap (updatesOf codec)).count figure.raise = figure.raised codec log := by
  cases figure with
  | score userID => exact count_zIncrBy userID
  | counter eventType => exact count_incr eventType

theorem sum_eq_count (figure : Figure) {commands : List Command}
    (hupdates : ∀ command ∈ commands, Update command) :
    figure.tally.sum commands = commands.count figure.raise := by
  cases figure with
  | score userID => exact Tally.userScore_sum_eq_count userID commands
  | counter eventType =>
      induction commands with
      | nil => rfl
      | cons command commands ih =>
          obtain ⟨hfirst, hrest⟩ := List.forall_mem_cons.mp hupdates
          rw [List.count_cons, Nat.cast_add, ← ih hrest, Tally.sum, Tally.sum, List.map_cons,
            List.sum_cons]
          cases hfirst with
          | incr other => simp [tally, raise, Tally.typeCount, typeKey_inj, add_comm]
          | zIncrBy userID => simp [tally, raise, Tally.typeCount, leaderboardKey_ne_typeKey]

theorem read_execAll (figure : Figure) {commands : List Command} {db : Db} (htyped : Typed db)
    (hupdates : ∀ command ∈ commands, Update command) :
    figure.read (execAll 0 commands db).2 = figure.read db + commands.count figure.raise := by
  rw [← figure.sum_eq_count hupdates]
  exact (figure.tally.read_execAll htyped hupdates).2

end Figure

section Step

variable {codec : Codec Body Value} {log : List (Message Value)} {state next : Consumer Value}
  {action : Action}

@[simp] theorem Figure.raised_nil (codec : Codec Body Value) (figure : Figure) :
    figure.raised codec ([] : List (Message Value)) = 0 := rfl

theorem Figure.raised_append (figure : Figure) (first second : List (Message Value)) :
    figure.raised codec (first ++ second) =
      figure.raised codec first + figure.raised codec second :=
  List.countP_append

theorem Figure.read_step (figure : Figure) (htyped : Typed state.db)
    (hproper : state.loop.point.Proper codec)
    (hstep : (consumer codec log).step state action = some next) :
    Typed next.db ∧
      figure.read next.db + (state.applied.map Prod.snd).count figure.raise =
        figure.read state.db + (next.applied.map Prod.snd).count figure.raise := by
  have hexec (commands : List Command)
      (hsub : commands.Sublist (state.loop.point.pending codec)) :
      Typed (execAll 0 commands state.db).2 ∧
        figure.read (execAll 0 commands state.db).2 =
          figure.read state.db + commands.count figure.raise := by
    have hupdates : ∀ command ∈ commands, Update command :=
      fun command hmem => hproper.updates command (hsub.subset hmem)
    exact ⟨(figure.tally.read_execAll htyped hupdates).1, figure.read_execAll htyped hupdates⟩
  cases action with
  | work outcome =>
      obtain ⟨⟨loop, db⟩, hwork, rfl⟩ := Option.map_eq_some_iff.mp hstep
      have hdrops := Loop.work_drops hwork
      rw [List.append_assoc] at hdrops
      obtain ⟨htypedNext, hread⟩ := hexec (state.loop.point.executes outcome)
        (hdrops ▸ List.sublist_append_left _ _)
      rw [← (Loop.work_spec hwork).db_eq] at htypedNext hread
      refine ⟨htypedNext, ?_⟩
      rw [hread, List.map_append, Consumer.snd_tag, List.count_append, Nat.cast_add]
      ring
  | crash received =>
      obtain rfl := Option.some.inj hstep
      obtain ⟨htypedNext, hread⟩ := hexec (state.loop.point.inFlight.take received)
        (@Point.inFlight_pending _ _ codec state.loop.point received ▸
          List.sublist_append_left _ _)
      refine ⟨htypedNext, ?_⟩
      simp only [Consumer.crash, List.map_append, Consumer.snd_tag, List.count_append,
        Nat.cast_add, hread]
      ring
  | read | readError | flush offset =>
      cases stepped_of_step hstep
      exact ⟨htyped, rfl⟩

theorem Figure.balance_step (figure : Figure) (hreading : state.Reading log)
    (htyped : Typed state.db) (hproper : state.loop.point.Proper codec)
    (hstep : (consumer codec log).step state action = some next) :
    figure.read next.db + (next.loop.point.pending codec).count figure.raise +
        (state.loses codec action).count figure.raise +
        figure.raised codec (log.take state.position) =
      figure.read state.db + (state.loop.point.pending codec).count figure.raise +
        figure.raised codec (log.take next.position) +
        figure.raised codec (state.redelivers log action) := by
  have hread := (figure.read_step htyped hproper hstep).2
  have hcount := (Consumer.balance_step hreading hstep).count_eq figure.raise
  simp only [List.count_append, figure.count_raise] at hcount
  omega

end Step

/-! ## Whole runs -/

section Run

variable {codec : Codec Body Value} {log : List (Message Value)} {initial : Db}
  {labels : List Action} {state : Consumer Value}

def lost (codec : Codec Body Value) (log : List (Message Value)) (initial : Db)
    (labels : List Action) : List Command :=
  (consumer codec log).gather (Consumer.loses codec) (Consumer.start initial) labels

def redelivered (codec : Codec Body Value) (log : List (Message Value)) (initial : Db)
    (labels : List Action) : List (Message Value) :=
  (consumer codec log).gather (Consumer.redelivers log) (Consumer.start initial) labels

structure Ledger (codec : Codec Body Value) (log : List (Message Value)) (initial : Db)
    (labels : List Action) (state : Consumer Value) : Prop where
  reading : state.Reading log
  typed : Typed state.db
  proper : state.loop.point.Proper codec
  balance : ∀ figure : Figure,
    figure.read state.db + (state.loop.point.pending codec).count figure.raise +
        (lost codec log initial labels).count figure.raise =
      figure.read initial + figure.raised codec (log.take state.position) +
        figure.raised codec (redelivered codec log initial labels)

end Run

end NexPulse.Aggregate
