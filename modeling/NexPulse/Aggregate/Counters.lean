import NexPulse.Aggregate.Consumer

/-!
# What the counters of the aggregator count

The counters start at zero with the process, which starts again at the committed
offset after a crash.  They are compared with the messages that the process has
read since then.
-/

namespace NexPulse.Aggregate

open NexPulse.Foundation NexPulse.Foundation.Redis NexPulse.RateLimit NexPulse.Ingest

variable {Body Value : Type*}

def readsSinceStart (actions : List Action) : Nat :=
  actions.foldl (fun reads action =>
    match action with
    | .crash _ => 0
    | .read => reads + 1
    | _ => reads) 0

def Consumer.readMessages (log : List (Message Value)) (actions : List Action)
    (state : Consumer Value) : List (Message Value) :=
  (log.take state.position).drop (state.position - readsSinceStart actions)

def Point.isConsumed : Point Value → Bool
  | .consumed _ => true
  | _ => false

def Point.isFailing : Point Value → Bool
  | .failing => true
  | _ => false

def Point.isExecuted : Point Value → Bool
  | .failing | .processing => true
  | _ => false

/--
`aggregator_kafka_messages_consumed_total` counts the messages read,
`aggregator_events_processed_total` those of them that parse, whether their
pipeline failed or not, and `aggregator_redis_errors_total` no more than these.
-/
structure Counted (codec : Codec Body Value) (log : List (Message Value)) (actions : List Action)
    (state : Consumer Value) : Prop where
  consumed : state.loop.metrics.kafkaMessagesConsumed + state.loop.point.isConsumed.toNat =
    readsSinceStart actions
  reads_le : readsSinceStart actions ≤ state.position ∧ state.position ≤ log.length
  processed : state.loop.metrics.eventsProcessed + state.loop.point.uncounted codec =
    (state.readMessages log actions).countP fun message => (codec.unmarshal message.value).isSome
  errors : state.loop.metrics.redisErrors + state.loop.point.isFailing.toNat ≤
    state.loop.metrics.eventsProcessed + state.loop.point.isExecuted.toNat

section Counted

variable {codec : Codec Body Value} {log : List (Message Value)} {actions : List Action}
  {action : Action} {state next : Consumer Value}

theorem Loop.work_counts {outcome : Outcome} {loop next : Loop Value} {db after : Db}
    (h : loop.work codec outcome db = some (next, after)) :
    next.metrics.kafkaMessagesConsumed + next.point.isConsumed.toNat =
        loop.metrics.kafkaMessagesConsumed + loop.point.isConsumed.toNat ∧
      (loop.metrics.redisErrors + loop.point.isFailing.toNat ≤
          loop.metrics.eventsProcessed + loop.point.isExecuted.toNat →
        next.metrics.redisErrors + next.point.isFailing.toNat ≤
          next.metrics.eventsProcessed + next.point.isExecuted.toNat) := by
  obtain ⟨point, metrics⟩ := loop
  cases point with
  | head => contradiction
  | parsing message =>
      cases hparsed : codec.unmarshal message.value with
      | none =>
          obtain ⟨rfl, rfl⟩ := by simpa [work, hparsed] using h
          exact ⟨rfl, id⟩
      | some event =>
          obtain ⟨rfl, rfl⟩ := by simpa [work, hparsed] using h
          exact ⟨rfl, id⟩
  | executing message queued replies =>
      cases queued with
      | nil =>
          cases herror : firstError replies with
          | none =>
              obtain ⟨rfl, rfl⟩ := by simpa [work, herror] using h
              exact ⟨rfl, fun hle => Nat.le_succ_of_le hle⟩
          | some error =>
              obtain ⟨rfl, rfl⟩ := by simpa [work, herror] using h
              exact ⟨rfl, fun hle => Nat.succ_le_succ hle⟩
      | cons command queued =>
          obtain ⟨rfl, rfl⟩ := by simpa [work] using h
          exact ⟨rfl, id⟩
  | consumed message | failing | processing =>
      obtain ⟨rfl, rfl⟩ := by simpa [work] using h
      exact ⟨rfl, id⟩

theorem readsSinceStart_concat (actions : List Action) (action : Action) :
    readsSinceStart (actions ++ [action]) =
      match action with
      | .crash _ => 0
      | .read => readsSinceStart actions + 1
      | _ => readsSinceStart actions := by
  rw [readsSinceStart, List.foldl_append]
  rfl

theorem Counted.read {message : Message Value} (h : Counted codec log actions state)
    (hhead : state.loop.point = .head) (hfound : log[state.position]? = some message) :
    Counted codec log (actions ++ [.read]) { state with
      position := state.position + 1
      loop := { state.loop with point := .consumed message } } := by
  have hlt := (List.getElem?_eq_some_iff.mp hfound).1
  have hreads : readsSinceStart (actions ++ [.read]) = readsSinceStart actions + 1 :=
    readsSinceStart_concat actions .read
  have hmessages : ({ state with
        position := state.position + 1
        loop := { state.loop with point := .consumed message } } : Consumer Value).readMessages log
          (actions ++ [.read]) = state.readMessages log actions ++ [message] := by
    have hcut : state.position - readsSinceStart actions ≤ (log.take state.position).length := by
      rw [List.length_take]
      omega
    rw [Consumer.readMessages, Consumer.readMessages, hreads, Nat.add_sub_add_right,
      List.take_add_one, hfound, Option.toList_some, List.drop_append_of_le_length hcut]
  obtain ⟨hconsumed, hbounds, hprocessed, herrors⟩ := h
  rw [hhead] at hconsumed hprocessed herrors
  refine ⟨?_, ⟨?_, hlt⟩, ?_, herrors⟩
  · rw [hreads, ← hconsumed]
    rfl
  · rw [hreads]
    exact Nat.succ_le_succ hbounds.1
  · rw [hmessages, List.countP_append, ← hprocessed, List.countP_singleton]
    rfl

theorem Counted.quiet {others : List Action} (h : Counted codec log actions state)
    (hreads : readsSinceStart others = readsSinceStart actions)
    (hloop : next.loop = state.loop) (hposition : next.position = state.position) :
    Counted codec log others next := by
  refine ⟨?_, ?_, ?_, ?_⟩
  · rw [hloop, hreads]
    exact h.consumed
  · rw [hreads, hposition]
    exact h.reads_le
  · rw [hloop, Consumer.readMessages, hreads, hposition]
    exact h.processed
  · rw [hloop]
    exact h.errors

theorem Counted.step (hreading : state.Reading log) (h : Counted codec log actions state)
    (hstep : (consumer codec log).step state action = some next) :
    Counted codec log (actions ++ [action]) next := by
  cases action with
  | read =>
      cases stepped_of_step hstep with
      | read message hhead hfound => exact h.read hhead hfound
  | work outcome =>
      obtain ⟨⟨loop, db⟩, hwork, rfl⟩ := Option.map_eq_some_iff.mp hstep
      obtain ⟨hconsumed, herrors⟩ := Loop.work_counts hwork
      have hreads : readsSinceStart (actions ++ [.work outcome]) = readsSinceStart actions :=
        readsSinceStart_concat actions (.work outcome)
      refine ⟨?_, ?_, ?_, herrors h.errors⟩
      · rw [hreads, ← h.consumed]
        exact hconsumed
      · rw [hreads]
        exact h.reads_le
      · rw [Consumer.readMessages, hreads]
        exact (Loop.work_spec hwork).counted.trans h.processed
  | readError =>
      cases stepped_of_step hstep
      exact h.quiet (readsSinceStart_concat actions .readError) rfl rfl
  | flush offset =>
      cases stepped_of_step hstep
      exact h.quiet (readsSinceStart_concat actions (.flush offset)) rfl rfl
  | crash received =>
      obtain rfl := Option.some.inj hstep
      have hreads : readsSinceStart (actions ++ [.crash received]) = 0 :=
        readsSinceStart_concat actions (.crash received)
      have hcommitted := hreading.committed_le
      have hnone : (state.crash received).readMessages log (actions ++ [.crash received]) = [] := by
        rw [Consumer.readMessages, hreads, Nat.sub_zero]
        exact List.drop_eq_nil_of_le (List.length_take_le _ _)
      refine ⟨by rw [hreads]; rfl, ⟨by rw [hreads]; exact Nat.zero_le _, ?_⟩, ?_, Nat.le_refl _⟩
      · exact Nat.le_trans hcommitted h.reads_le.2
      · rw [hnone]
        rfl

/-- In every run, with any crashes and failures, the counters agree with what was read. -/
theorem counters_of_run {db : Db}
    (hrun : (consumer codec log).run (Consumer.start db) actions = some state) :
    Counted codec log actions state := by
  have hboth := (consumer codec log).run_induction
    (P := fun actions state => state.Reading log ∧ Counted codec log actions state) ?_ ?_ hrun
  · exact hboth.2
  · exact ⟨Consumer.reading_start log db, rfl, ⟨Nat.le_refl _, Nat.zero_le _⟩, rfl, Nat.le_refl _⟩
  · intro actions state action next _ ⟨hreading, hcounted⟩ hstep
    exact ⟨hreading.step (stepped_of_step hstep), hcounted.step hreading hstep⟩

def troubled : List Action :=
  [.read, .work .replied, .work .replied, .work .notExecuted, .work .replied, .work .replied,
    .work .replied, .flush 1, .read, .work .replied, .work .replied, .crash 0, .read,
    .work .replied, .work .replied, .read, .work .replied, .work .replied]

theorem counters_of_run_troubled :
    ∃ state, (consumer loginCodec [loginMessage, ⟨"bob", "bob"⟩, loginMessage]).run
        (Consumer.start fun _ => none) troubled = some state ∧
      state.loop.metrics.kafkaMessagesConsumed = 2 ∧ readsSinceStart troubled = 2 ∧
      Counted loginCodec [loginMessage, ⟨"bob", "bob"⟩, loginMessage] troubled state := by
  have hrun : (consumer loginCodec [loginMessage, ⟨"bob", "bob"⟩, loginMessage]).run
      (Consumer.start fun _ => none) troubled = some _ := rfl
  exact ⟨_, hrun, rfl, rfl, counters_of_run hrun⟩

end Counted

end NexPulse.Aggregate
