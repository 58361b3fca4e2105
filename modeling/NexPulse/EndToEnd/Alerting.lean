import NexPulse.Anomaly.Alert
import NexPulse.Anomaly.Recording
import NexPulse.Anomaly.Spikes
import NexPulse.Query.HubDelivery

/-!
# From the events to the dashboards

The gateway, its posts and the evaluator, which publishes an alert on
dashboard_updates at some of its ticks; the subscription of the query service,
which hands one message at a time over to the hub; and the hub with its
connections.  Redis delivers what is published at most once: a message may be
lost when it is published or while it waits for the hub, and is never written
down.
-/

namespace NexPulse.EndToEnd

open NexPulse.Foundation NexPulse.Foundation.Redis NexPulse.RateLimit NexPulse.Ingest
  NexPulse.Anomaly NexPulse.Query

structure Alerting (Conn Body : Type*) where
  monitoring : Monitoring Body
  -- What the subscription has still to hand over to the hub.
  channel : List Text
  hub : Hub Conn Text

inductive Signal (Conn Body : Type*) where
  -- Whether the message reaches the query service matters where one is published.
  | monitor (occurrence : Occurrence Body) (reaches : Bool)
  | lose (position : Nat)
  | broadcast
  | hub (event : Event Conn Text)

variable {Conn Body Value : Type*}

namespace Signal

def loses : Signal Conn Body → Bool
  | .monitor .tick false => true
  | .lose _ => true
  | _ => false

end Signal

def published (detector : Detector) : Occurrence Body → List Text
  | .tick => detector.tick.2.toList.map SpikeAlert.payload
  | _ => []

namespace Alerting

def start (db : Db) : Alerting Conn Body := ⟨.start db, [], .newHub⟩

end Alerting

variable [DecidableEq Conn]

section Run

variable {codec : Codec Body Value} {db : Db} {labels : List (Signal Conn Body)}
  {state : Alerting Conn Body}

/-! ## The parts of the system -/

def Alerting.counts (state : Alerting Conn Body) : List Nat :=
  (List.range state.monitoring.taken.length).map fun tick =>
    state.monitoring.posts.countP (· = .recorded tick)

end Run

end NexPulse.EndToEnd
