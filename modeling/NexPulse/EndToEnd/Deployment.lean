import NexPulse.Aggregate.Ledger
import NexPulse.EndToEnd.Conservation
import NexPulse.Ingest.Dispatch

/-!
# The deployment and its ledger

The gateway with its asynchronous writer, a topic of several partitions, the
consume loop of each partition and one Redis database, with every failure that
the services meet: requests of any kind, brokers that refuse batches, Redis
commands that fail, crashes of the consumers and keys that expire.  The writer
chooses the partition of a message by its key.  An aggregator that owns several
partitions is a schedule in which one of their loops at a time is past its head;
a partition that changes its owner is a crash of its loop.
-/

namespace NexPulse.EndToEnd

open NexPulse.Foundation NexPulse.Foundation.Redis NexPulse.RateLimit NexPulse.Ingest
  NexPulse.Aggregate

structure Deployment (Partition Body Value : Type*) where
  -- Its database is the one that all services use.
  production : Production Body Value
  consumers : Partition → Consumer Value

inductive Occasion (Partition Body : Type*) where
  | produce (incident : Incident Body)
  | consume (partition : Partition) (action : Action)
  | expire (clock : Int)

variable {Partition Body Value : Type*} [DecidableEq Partition]

namespace Deployment

def start (db : Db) : Deployment Partition Body Value := ⟨.start db, fun _ => .start db⟩

def setDb (state : Deployment Partition Body Value) (db : Db) : Deployment Partition Body Value :=
  { state with production := { state.production with db := db } }

def setConsumer (state : Deployment Partition Body Value) (partition : Partition)
    (consumer : Consumer Value) : Deployment Partition Body Value :=
  { state.setDb consumer.db with
    consumers := Function.update state.consumers partition consumer }

/-- The messages of a partition; `balance` is the partition that the Hash balancer gives a key. -/
def log (balance : String → Partition) (state : Deployment Partition Body Value)
    (partition : Partition) : List (Message Value) :=
  (state.production.topic.map Prod.snd).filter fun message => balance message.key = partition

def consumer (state : Deployment Partition Body Value) (partition : Partition) : Consumer Value :=
  { state.consumers partition with db := state.production.db }

def unread (balance : String → Partition) (state : Deployment Partition Body Value)
    (partition : Partition) : List (Message Value) :=
  (state.log balance partition).drop (state.consumers partition).position

def loses (codec : Codec Body Value) (state : Deployment Partition Body Value) :
    Occasion Partition Body → List Command
  | .consume partition action => (state.consumer partition).loses codec action
  | .produce _ | .expire _ => []

def redelivers (balance : String → Partition) (state : Deployment Partition Body Value) :
    Occasion Partition Body → List (Message Value)
  | .consume partition action =>
      (state.consumer partition).redelivers (state.log balance partition) action
  | .produce _ | .expire _ => []

def drops (maxAttempts : Nat) (state : Deployment Partition Body Value) :
    Occasion Partition Body → List (Message Value)
  | .produce incident => state.production.drops maxAttempts incident
  | .consume .. | .expire _ => []

def copies (state : Deployment Partition Body Value) :
    Occasion Partition Body → List (Message Value)
  | .produce incident => state.production.copies incident
  | .consume .. | .expire _ => []

def retires (state : Deployment Partition Body Value) : Occasion Partition Body → List Event
  | .produce incident => state.production.retires incident
  | .consume .. | .expire _ => []

end Deployment

def deployment (codec : Codec Body Value) (maxAttempts : Nat) (balance : String → Partition) :
    System (Deployment Partition Body Value) (Occasion Partition Body) where
  step state
    | .produce incident =>
        ((incidents codec maxAttempts).step state.production incident).map fun production =>
          { state with production := production }
    | .consume partition action =>
        ((consumer codec (state.log balance partition)).step (state.consumer partition) action).map
          (state.setConsumer partition)
    | .expire clock => some (state.setDb (state.production.db.purge clock))

section Growing

variable {log longer : List (Message Value)} {state : Consumer Value}

theorem reading_of_prefix (h : state.Reading log) (hlead : log <+: longer) :
    state.Reading longer where
  current message hmessage := by
    obtain ⟨hpos, hfound⟩ := h.current message hmessage
    obtain ⟨more, rfl⟩ := hlead
    exact ⟨hpos, List.getElem?_append_left (List.getElem?_eq_some_iff.mp hfound).1 ▸ hfound⟩
  committed_le := h.committed_le

theorem take_of_prefix (hlead : log <+: longer) (hle : state.position ≤ log.length) :
    longer.take state.position = log.take state.position := by
  obtain ⟨more, rfl⟩ := hlead
  exact List.take_append_of_le_length hle

theorem position_le_step {codec : Codec Body Value} {next : Consumer Value} {action : Action}
    (hreading : state.Reading log) (hle : state.position ≤ log.length)
    (hstep : (NexPulse.Aggregate.consumer codec log).step state action = some next) :
    next.position ≤ log.length := by
  cases stepped_of_step hstep with
  | read message hhead hfound => exact (List.getElem?_eq_some_iff.mp hfound).1
  | crash received => exact hreading.committed_le.trans hle
  | _ => exact hle

end Growing

theorem topic_step {codec : Codec Body Value} {maxAttempts : Nat}
    {state next : Production Body Value} {activity : Activity Body}
    (hstep : (production codec maxAttempts).step state activity = some next) :
    state.topic <+: next.topic := by
  cases activity with
  | gateway move =>
      obtain ⟨moved, -, rfl⟩ := Option.map_eq_some_iff.mp hstep
      rw [(messages_accept state moved).2.2.1]
  | batch requests =>
      simp only [production] at hstep
      split at hstep
      · contradiction
      · obtain rfl := Option.some.inj hstep
        exact List.prefix_refl _
  | attempt index succeeds =>
      obtain ⟨batch, hfound, rfl⟩ := Option.map_eq_some_iff.mp hstep
      cases succeeds with
      | true => exact List.prefix_append _ _
      | false =>
          by_cases hattempts : batch.attempts + 1 < maxAttempts <;>
            simp [hattempts, Production.retry, Production.discard]

theorem topic_incident {codec : Codec Body Value} {maxAttempts : Nat}
    {state next : Production Body Value} {incident : Incident Body}
    (hstep : (incidents codec maxAttempts).step state incident = some next) :
    state.topic <+: next.topic := by
  cases incident with
  | activity activity => exact @topic_step _ _ _ _ _ _ activity hstep
  | appended index =>
      obtain ⟨batch, -, hattempt⟩ := Option.bind_eq_some_iff.mp hstep
      exact (List.prefix_append _ _).trans (topic_step hattempt)
  | missing index =>
      obtain ⟨batch, -, rfl⟩ := Option.map_eq_some_iff.mp hstep
      exact List.prefix_refl _
  | restart =>
      obtain rfl := Option.some.inj hstep
      exact List.prefix_refl _

/-! ## The invariant -/

section Sound

variable {codec : Codec Body Value} {maxAttempts : Nat}
  {balance : String → Partition} {initial : Db} {labels : List (Occasion Partition Body)}
  {state next : Deployment Partition Body Value} {occasion : Occasion Partition Body}

structure Deployment.Sound (codec : Codec Body Value) (balance : String → Partition)
    (state : Deployment Partition Body Value) : Prop where
  typed : Typed state.production.db
  reading : ∀ partition, (state.consumers partition).Reading (state.log balance partition)
  position_le : ∀ partition,
    (state.consumers partition).position ≤ (state.log balance partition).length
  proper : ∀ partition, (state.consumers partition).loop.point.Proper codec

theorem Deployment.Sound.reading_consumer (h : state.Sound codec balance) (partition : Partition) :
    (state.consumer partition).Reading (state.log balance partition) :=
  ⟨(h.reading partition).current, (h.reading partition).committed_le⟩

theorem log_step {production : Production Body Value} {incident : Incident Body}
    (balance : String → Partition) (partition : Partition)
    (consumers : Partition → Consumer Value)
    (hstep : (incidents codec maxAttempts).step state.production incident = some production) :
    state.log balance partition <+:
      (Deployment.mk production consumers).log balance partition :=
  ((topic_incident hstep).map Prod.snd).filter _

theorem Deployment.Sound.setDb {db : Db} (h : state.Sound codec balance)
    (hsame : ∀ key, AggregateKey key → db key = state.production.db key) :
    (state.setDb db).Sound codec balance :=
  ⟨h.typed.congr hsame, h.reading, h.position_le, h.proper⟩

theorem Deployment.Sound.produce {production : Production Body Value}
    {incident : Incident Body} (h : state.Sound codec balance)
    (hstep : (incidents codec maxAttempts).step state.production incident = some production)
    (hlimiter : LimiterOnly state.production.db production.db) :
    Deployment.Sound codec balance { state with production := production } := by
  have hlonger (partition : Partition) := log_step balance partition state.consumers hstep
  refine ⟨h.typed.congr fun key hkey => limiterOnly_aggregate hlimiter hkey, ?_, ?_, h.proper⟩
  · exact fun partition => reading_of_prefix (h.reading partition) (hlonger partition)
  · exact fun partition => (h.position_le partition).trans (hlonger partition).length_le

theorem Deployment.consumers_setConsumer_self (state : Deployment Partition Body Value)
    (partition : Partition) (consumer : Consumer Value) :
    (state.setConsumer partition consumer).consumers partition = consumer :=
  Function.update_self ..

theorem Deployment.consumers_setConsumer_of_ne {partition other : Partition}
    {consumer : Consumer Value} (hother : other ≠ partition) :
    (state.setConsumer partition consumer).consumers other = state.consumers other :=
  Function.update_of_ne hother ..

theorem Deployment.Sound.consume {partition : Partition} {action : Action}
    {consumer : Consumer Value} (h : state.Sound codec balance)
    (hstep : (NexPulse.Aggregate.consumer codec (state.log balance partition)).step
      (state.consumer partition) action = some consumer) :
    (state.setConsumer partition consumer).Sound codec balance := by
  have htyped : Typed (state.consumer partition).db := h.typed
  have hproper : (state.consumer partition).loop.point.Proper codec := h.proper partition
  have hreading := h.reading_consumer partition
  have hreadingNext := hreading.step (stepped_of_step hstep)
  have hpositionNext := position_le_step hreading (h.position_le partition) hstep
  have hproperNext := hproper.step hstep
  refine ⟨((Figure.score "").read_step htyped hproper hstep).1, ?_, ?_, ?_⟩ <;>
    intro other <;> by_cases hother : other = partition
  · subst hother
    rwa [Deployment.consumers_setConsumer_self]
  · rw [Deployment.consumers_setConsumer_of_ne hother]
    exact h.reading other
  · subst hother
    rwa [Deployment.consumers_setConsumer_self]
  · rw [Deployment.consumers_setConsumer_of_ne hother]
    exact h.position_le other
  · subst hother
    rwa [Deployment.consumers_setConsumer_self]
  · rw [Deployment.consumers_setConsumer_of_ne hother]
    exact h.proper other

end Sound

/-! ## The ledger -/

section Ledger

variable [Fintype Partition] {codec : Codec Body Value} {maxAttempts : Nat}
  {balance : String → Partition} {initial : Db} {labels : List (Occasion Partition Body)}
  {state next : Deployment Partition Body Value} {occasion : Occasion Partition Body}

def Deployment.underWay (codec : Codec Body Value) (state : Deployment Partition Body Value)
    (figure : Figure) : Nat :=
  ∑ partition, ((state.consumers partition).loop.point.pending codec).count figure.raise

def Deployment.consumed (codec : Codec Body Value) (balance : String → Partition)
    (state : Deployment Partition Body Value) (figure : Figure) : Nat :=
  ∑ partition, figure.raised codec
    ((state.log balance partition).take (state.consumers partition).position)

theorem balance_produce {production : Production Body Value} {incident : Incident Body}
    (hsound : state.Sound codec balance)
    (hstep : (incidents codec maxAttempts).step state.production incident = some production)
    (hlimiter : LimiterOnly state.production.db production.db) (figure : Figure) :
    figure.read production.db = figure.read state.production.db ∧
      Deployment.consumed codec balance { state with production := production } figure =
        state.consumed codec balance figure := by
  refine ⟨figure.read_congr fun key hkey => limiterOnly_aggregate hlimiter hkey, ?_⟩
  refine Finset.sum_congr rfl fun partition _ => congrArg _ ?_
  exact take_of_prefix (log_step balance partition state.consumers hstep)
    (hsound.position_le partition)

theorem balance_consume {partition : Partition} {action : Action} {consumer : Consumer Value}
    (hsound : state.Sound codec balance)
    (hstep : (NexPulse.Aggregate.consumer codec (state.log balance partition)).step
      (state.consumer partition) action = some consumer) (figure : Figure) :
    figure.read consumer.db + (state.setConsumer partition consumer).underWay codec figure +
        (state.loses codec (.consume partition action : Occasion Partition Body)).count
          figure.raise + state.consumed codec balance figure =
      figure.read state.production.db + state.underWay codec figure +
        (state.setConsumer partition consumer).consumed codec balance figure +
        figure.raised codec
          (state.redelivers balance (.consume partition action : Occasion Partition Body)) := by
  have htyped : Typed (state.consumer partition).db := hsound.typed
  have hproper : (state.consumer partition).loop.point.Proper codec := hsound.proper partition
  have hmoved := figure.balance_step (hsound.reading_consumer partition) htyped hproper hstep
  have hunderWay := Pool.sum_update_add (fun _ (consumer : Consumer Value) =>
    (consumer.loop.point.pending codec).count figure.raise) state.consumers partition consumer
  have hconsumed := Pool.sum_update_add (fun partition (consumer : Consumer Value) =>
    figure.raised codec ((state.log balance partition).take consumer.position))
    state.consumers partition consumer
  simp only [Deployment.underWay, Deployment.consumed, Deployment.loses, Deployment.redelivers,
    Deployment.consumer, Deployment.log, Deployment.setConsumer, Deployment.setDb]
    at hmoved hunderWay hconsumed ⊢
  omega

variable (codec maxAttempts balance initial labels)

def lost : List Command :=
  (deployment codec maxAttempts balance).gather (Deployment.loses codec) (.start initial) labels

def redelivered : List (Message Value) :=
  (deployment codec maxAttempts balance).gather (Deployment.redelivers balance) (.start initial)
    labels

def dropped : List (Message Value) :=
  (deployment codec maxAttempts balance).gather (Deployment.drops maxAttempts) (.start initial)
    labels

def copied : List (Message Value) :=
  (deployment codec maxAttempts balance).gather Deployment.copies (.start initial) labels

def retired : List Event :=
  (deployment codec maxAttempts balance).gather Deployment.retires (.start initial) labels

structure Ledger (state : Deployment Partition Body Value) : Prop where
  dispatched : Dispatched codec state.production
    (retired codec maxAttempts balance initial labels)
    (copied codec maxAttempts balance initial labels)
    (dropped codec maxAttempts balance initial labels)
  sound : state.Sound codec balance
  balance : ∀ figure : Figure,
    figure.read state.production.db + state.underWay codec figure +
        (lost codec maxAttempts balance initial labels).count figure.raise =
      figure.read initial + state.consumed codec balance figure +
        figure.raised codec (redelivered codec maxAttempts balance initial labels)

variable {codec maxAttempts balance initial labels}

theorem Ledger.step (hcodec : codec.RoundTrip)
    (hrun : (deployment codec maxAttempts balance).run (.start initial) labels = some state)
    (h : Ledger codec maxAttempts balance initial labels state)
    (hstep : (deployment codec maxAttempts balance).step state occasion = some next) :
    Ledger codec maxAttempts balance initial (labels ++ [occasion]) next := by
  have hgathered (figure : Figure) (hmoved : figure.read next.production.db +
      next.underWay codec figure + (state.loses codec occasion).count figure.raise +
      state.consumed codec balance figure = figure.read state.production.db +
      state.underWay codec figure + next.consumed codec balance figure +
      figure.raised codec (state.redelivers balance occasion)) :
      figure.read next.production.db + next.underWay codec figure +
          (lost codec maxAttempts balance initial (labels ++ [occasion])).count figure.raise =
        figure.read initial + next.consumed codec balance figure +
          figure.raised codec
            (redelivered codec maxAttempts balance initial (labels ++ [occasion])) := by
    have hbefore := h.balance figure
    simp only [lost, redelivered, System.gather_concat _ occasion hrun, List.count_append,
      figure.raised_append] at hbefore ⊢
    omega
  have hdispatched (hmoved : Dispatched codec next.production
      (retired codec maxAttempts balance initial labels ++ state.retires occasion)
      (copied codec maxAttempts balance initial labels ++ state.copies occasion)
      (dropped codec maxAttempts balance initial labels ++ state.drops maxAttempts occasion)) :
      Dispatched codec next.production
        (retired codec maxAttempts balance initial (labels ++ [occasion]))
        (copied codec maxAttempts balance initial (labels ++ [occasion]))
        (dropped codec maxAttempts balance initial (labels ++ [occasion])) := by
    rwa [retired, copied, dropped, System.gather_concat _ occasion hrun,
      System.gather_concat _ occasion hrun, System.gather_concat _ occasion hrun]
  cases occasion with
  | produce incident =>
      obtain ⟨production, hproduction, rfl⟩ := Option.map_eq_some_iff.mp hstep
      obtain ⟨hmoved, hlimiter⟩ := h.dispatched.step hcodec hproduction
      refine ⟨hdispatched hmoved, h.sound.produce hproduction hlimiter, fun figure => ?_⟩
      obtain ⟨hread, hconsumed⟩ := balance_produce h.sound hproduction hlimiter figure
      refine hgathered figure ?_
      rw [hread, hconsumed]
      simp [Deployment.loses, Deployment.redelivers, Deployment.underWay]
  | consume partition action =>
      obtain ⟨consumer, hconsumer, rfl⟩ := Option.map_eq_some_iff.mp hstep
      refine ⟨hdispatched ?_, h.sound.consume hconsumer, fun figure => ?_⟩
      · simp only [Deployment.retires, Deployment.copies, Deployment.drops, List.append_nil]
        exact ⟨h.dispatched.accounted, h.dispatched.published⟩
      · exact hgathered figure (balance_consume h.sound hconsumer figure)
  | expire clock =>
      obtain rfl := Option.some.inj hstep
      have hsame (key : String) (hkey : AggregateKey key) :
          state.production.db.purge clock key = state.production.db key :=
        purge_of_persistent clock (h.sound.typed.persistent key hkey)
      refine ⟨hdispatched ?_, h.sound.setDb hsame, fun figure => ?_⟩
      · simp only [Deployment.retires, Deployment.copies, Deployment.drops, List.append_nil]
        exact ⟨h.dispatched.accounted, h.dispatched.published⟩
      · refine hgathered figure ?_
        have hread : figure.read (state.production.db.purge clock) =
            figure.read state.production.db := figure.read_congr hsame
        simp only [Deployment.setDb, hread, Deployment.loses, Deployment.redelivers,
          Deployment.underWay, Deployment.consumed, Deployment.log, Figure.raised_nil,
          List.count_nil, Nat.cast_zero, add_zero]

def Deployment.waiting (codec : Codec Body Value) (balance : String → Partition)
    (state : Deployment Partition Body Value) (figure : Figure) : Nat :=
  ∑ partition, figure.raised codec (state.unread balance partition)

def raising (figure : Figure) (events : List Event) : Nat :=
  events.countP fun event => event.string? figure.field = some figure.text

structure Deployment.Quiet (balance : String → Partition)
    (state : Deployment Partition Body Value) : Prop where
  handlers : ∀ handler ∈ state.production.gateway.handlers,
    ∃ response, handler.point = .finished response
  held : state.production.held = []
  consumed : ∀ partition, (state.consumers partition).Consumed (state.log balance partition)

theorem raised_topic (state : Deployment Partition Body Value) (figure : Figure) :
    figure.raised codec (state.production.topic.map Prod.snd) =
      state.consumed codec balance figure + state.waiting codec balance figure := by
  have hparts (partition : Partition) :
      figure.raised codec (state.log balance partition) =
        figure.raised codec
            ((state.log balance partition).take (state.consumers partition).position) +
          figure.raised codec (state.unread balance partition) := by
    rw [← figure.raised_append, Deployment.unread, List.take_append_drop]
  rw [Deployment.consumed, Deployment.waiting, ← Finset.sum_add_distrib,
    ← Finset.sum_congr rfl fun partition _ => hparts partition]
  exact (Pool.sum_countP_filter _ (fun message : Message Value => balance message.key) _).symm

theorem raising_published {production : Production Body Value} {retired : List Event}
    {copied dropped : List (Message Value)} (h : Dispatched codec production retired copied dropped)
    (figure : Figure) :
    raising figure (retired ++ production.gateway.published) + figure.raised codec copied =
      figure.raised codec production.messages + figure.raised codec dropped := by
  have hcount := h.published.countP_eq fun event? : Option Event =>
    event?.bind (·.string? figure.field) = some figure.text
  rw [List.countP_append, List.countP_map, List.countP_map, List.countP_map] at hcount
  rw [← figure.raised_append]
  exact hcount.symm

theorem Ledger.events (h : Ledger codec maxAttempts balance initial labels state)
    (figure : Figure) :
    figure.read initial +
        raising figure (retired codec maxAttempts balance initial labels ++
          state.production.gateway.published) +
        figure.raised codec (copied codec maxAttempts balance initial labels) +
        figure.raised codec (redelivered codec maxAttempts balance initial labels) =
      figure.read state.production.db + state.underWay codec figure +
        (lost codec maxAttempts balance initial labels).count figure.raise +
        state.waiting codec balance figure + figure.raised codec state.production.held +
        figure.raised codec (dropped codec maxAttempts balance initial labels) := by
  have hpublished := raising_published h.dispatched figure
  have hmessages : state.production.messages =
      state.production.topic.map Prod.snd ++ state.production.held := List.map_append
  have htopic := @raised_topic _ _ _ _ _ codec balance state figure
  have hbalance := h.balance figure
  rw [hmessages, figure.raised_append] at hpublished
  omega

end Ledger

end NexPulse.EndToEnd
