import NexPulse.Foundation.Transition
import Mathlib.Data.Finset.Card
import Mathlib.Logic.Function.Basic

/-!
# The WebSocket hub

`Hub.Run` takes one registration, removal or broadcast at a time and ranges
over the client map while it writes.  Its neighbours are ServeWS, which hands a
fresh connection over on `register`, and the reader goroutine of a connection,
which hands it over on `unregister` when reading fails.  The channels are
unbuffered, so a hand-over is one step of both sides.  The range loop visits
the clients of the map in any order, each once; it deletes only the entry it is
at.
-/

namespace NexPulse.Query

open NexPulse.Foundation

inductive Stage where
  | fresh
  | registering
  | reading
  | unregistering
  | finished
  deriving DecidableEq, Repr

structure Hub (Conn Message : Type*) where
  clients : Finset Conn
  -- The message being broadcast; `none` when `Run` is at its select.
  current : Option Message
  remaining : Finset Conn
  stage : Conn → Stage
  activeWebSockets : Int
  messagesBroadcasted : Nat
  closed : Conn → Nat
  sent : Conn → List Message

inductive Event (Conn Message : Type*) where
  | upgrade (client : Conn)
  | register (client : Conn)
  | readError (client : Conn)
  | unregister (client : Conn)
  | broadcast (message : Message)
  | write (client : Conn) (succeeds : Bool)
  | broadcasted
  deriving DecidableEq

variable {Conn Message : Type*}

namespace Hub

def newHub : Hub Conn Message where
  clients := ∅
  current := none
  remaining := ∅
  stage := fun _ => .fresh
  activeWebSockets := 0
  messagesBroadcasted := 0
  closed := fun _ => 0
  sent := fun _ => []

def AtSelect (hub : Hub Conn Message) : Prop := hub.current = none

instance (hub : Hub Conn Message) : Decidable hub.AtSelect :=
  decidable_of_iff (hub.current.isNone = true) (by simp [AtSelect])

variable [DecidableEq Conn]

def setStage (hub : Hub Conn Message) (client : Conn) (stage : Stage) : Hub Conn Message :=
  { hub with stage := Function.update hub.stage client stage }

def drop (hub : Hub Conn Message) (client : Conn) : Hub Conn Message :=
  { hub with
    clients := hub.clients.erase client
    closed := Function.update hub.closed client (hub.closed client + 1)
    activeWebSockets := hub.activeWebSockets - 1 }

def Enabled (hub : Hub Conn Message) : Event Conn Message → Prop
  | .upgrade client => hub.stage client = .fresh
  | .register client => hub.AtSelect ∧ hub.stage client = .registering
  | .readError client => hub.stage client = .reading
  | .unregister client => hub.AtSelect ∧ hub.stage client = .unregistering
  | .broadcast _ => hub.AtSelect
  | .write client _ => ¬ hub.AtSelect ∧ client ∈ hub.remaining
  | .broadcasted => ¬ hub.AtSelect ∧ hub.remaining = ∅

instance (hub : Hub Conn Message) (event : Event Conn Message) : Decidable (hub.Enabled event) := by
  cases event <;> simp only [Enabled] <;> infer_instance

def next (hub : Hub Conn Message) : Event Conn Message → Hub Conn Message
  | .upgrade client => hub.setStage client .registering
  | .register client =>
      { hub.setStage client .reading with
        clients := insert client hub.clients
        activeWebSockets := hub.activeWebSockets + 1 }
  | .readError client => hub.setStage client .unregistering
  | .unregister client =>
      if client ∈ hub.clients then (hub.setStage client .finished).drop client
      else hub.setStage client .finished
  | .broadcast message => { hub with current := some message, remaining := hub.clients }
  | .write client true =>
      { hub with
        remaining := hub.remaining.erase client
        sent := Function.update hub.sent client (hub.sent client ++ hub.current.toList) }
  | .write client false =>
      { hub.drop client with remaining := hub.remaining.erase client }
  | .broadcasted =>
      { hub with current := none, messagesBroadcasted := hub.messagesBroadcasted + 1 }

end Hub

variable [DecidableEq Conn]

def hubSystem : System (Hub Conn Message) (Event Conn Message) :=
  System.guarded Hub.Enabled Hub.next

end NexPulse.Query
