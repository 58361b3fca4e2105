import NexPulse.Ingest.Event
import NexPulse.RateLimit.Limiter

/-!
# The ingest handler

A handler is a goroutine that runs `HandleIngest`, stopped between two of its
actions; the calls of AllowRequest and ProduceEvent are part of it.  `step`
says what the handler does next and, where it waits for an answer, how it goes
on from there.  The gateway is a pool of handlers with the metrics they share.
-/

namespace NexPulse.Ingest

open NexPulse.Foundation NexPulse.Foundation.Redis NexPulse.RateLimit

structure Response where
  status : Nat
  body : List (String × String)
  deriving DecidableEq

/-- The `reason` label of `gateway_events_rejected_total`. -/
inductive Reason where
  | badRequest
  | missingUserId
  | rateLimit
  | kafkaError
  deriving DecidableEq

def Reason.response : Reason → Response
  | .badRequest => ⟨400, [("error", "Invalid JSON")]⟩
  | .missingUserId => ⟨400, [("error", "user_id is required")]⟩
  | .rateLimit => ⟨429, [("error", "Rate limit exceeded")]⟩
  | .kafkaError => ⟨500, [("error", "Internal server error")]⟩

def accepted : Response := ⟨202, [("status", "accepted")]⟩

/-- What `gin.Recovery` answers when a handler panics. -/
def recovered : Response := ⟨500, []⟩

structure Metrics where
  activeConnections : Int
  eventsIngested : Nat
  eventsRejected : Reason → Nat
  rateLimitHits : Nat

def Metrics.init : Metrics := ⟨0, 0, fun _ => 0, 0⟩

/-- Where a handler stands, with the local variables that it still needs there. -/
inductive Point (Body : Type*) where
  | entered (body : Body)
  | binding (body : Body)
  | checking
  | pinging (userID : String)
  | readingClock (userID : String)
  | limiting (userID : String) (now : Int) (replies : List Reply)
  | limited
  | producing
  | counting
  | rejecting (reason : Reason)
  | responding (response : Response)
  | leaving (response : Response)
  | finished (response : Response)

structure Handler (Body : Type*) where
  event : Event
  point : Point Body

inductive Step (Body Value : Type*) where
  | compute (after : Handler Body) (metrics : Metrics)
  -- Start the goroutine that posts to the anomaly service.
  | ping (after : Handler Body)
  | readClock (after : Int → Handler Body)
  | redis (command : Command) (after : Reply → Handler Body)
  | writeMessages (message : Message Value) (after : Bool → Handler Body)
  | halt

def limit : Int := 50

def window : Int := nanosecondsPerSecond

variable {Body Value : Type*}

def Handler.step (codec : Codec Body Value) (metrics : Metrics) (handler : Handler Body) :
    Step Body Value :=
  let goto (point : Point Body) : Handler Body := { handler with point := point }
  match handler.point with
  | .entered body =>
      .compute (goto (.binding body))
        { metrics with activeConnections := metrics.activeConnections + 1 }
  | .binding body =>
      match codec.bindJSON body with
      | none => .compute (goto (.rejecting .badRequest)) metrics
      | some event => .compute ⟨event, .checking⟩ metrics
  | .checking =>
      match handler.event.string? "user_id" with
      | none | some "" => .compute (goto (.rejecting .missingUserId)) metrics
      | some userID => .compute (goto (.pinging userID)) metrics
  | .pinging userID => .ping (goto (.readingClock userID))
  | .readingClock userID => .readClock fun now => goto (.limiting userID now [])
  | .limiting userID now replies =>
      match (pipeline userID window now)[replies.length]? with
      | some command =>
          .redis command fun reply =>
            match reply with
            | .error .connection => goto .producing
            | reply => goto (.limiting userID now (replies ++ [reply]))
      | none =>
          match verdict limit replies with
          -- A limiter error is only logged: the handler fails open.
          | .error _ | .ok true => .compute (goto .producing) metrics
          | .ok false => .compute (goto .limited) metrics
  | .limited =>
      .compute (goto (.rejecting .rateLimit))
        { metrics with rateLimitHits := metrics.rateLimitHits + 1 }
  | .producing =>
      match codec.marshal handler.event with
      | none => .compute (goto (.rejecting .kafkaError)) metrics
      | some value =>
          match handler.event.string? "user_id" with
          | none => .compute (goto (.leaving recovered)) metrics
          | some userID =>
              .writeMessages ⟨userID, value⟩ fun written =>
                goto (if written then .counting else .rejecting .kafkaError)
  | .counting =>
      .compute (goto (.responding accepted))
        { metrics with eventsIngested := metrics.eventsIngested + 1 }
  | .rejecting reason =>
      .compute (goto (.responding reason.response))
        { metrics with eventsRejected :=
            Function.update metrics.eventsRejected reason (metrics.eventsRejected reason + 1) }
  | .responding response => .compute (goto (.leaving response)) metrics
  | .leaving response =>
      .compute (goto (.finished response))
        { metrics with activeConnections := metrics.activeConnections - 1 }
  | .finished _ => .halt

structure Gateway (Body : Type*) where
  handlers : List (Handler Body)
  metrics : Metrics
  pings : Nat

inductive Move (Body : Type*) where
  | request (body : Body)
  | compute (id : Nat)
  | readClock (id : Nat) (now : Int)
  | redis (id : Nat) (clock : Int) (outcome : Outcome)
  | write (id : Nat) (written : Bool)

structure Handed (Value : Type*) where
  id : Nat
  message : Message Value
  written : Bool

structure Moved (Body Value : Type*) where
  gateway : Gateway Body
  db : Db
  handed : Option (Handed Value)

namespace Gateway

def init : Gateway Body := ⟨[], .init, 0⟩

def setHandler (gateway : Gateway Body) (id : Nat) (handler : Handler Body) : Gateway Body :=
  { gateway with handlers := gateway.handlers.set id handler }

def next (codec : Codec Body Value) (gateway : Gateway Body) (id : Nat) : Step Body Value :=
  match gateway.handlers[id]? with
  | some handler => handler.step codec gateway.metrics
  | none => .halt

def move (codec : Codec Body Value) (gateway : Gateway Body) (db : Db) :
    Move Body → Option (Moved Body Value)
  | .request body =>
      some ⟨{ gateway with handlers := gateway.handlers ++ [⟨.empty, .entered body⟩] }, db, none⟩
  | .compute id =>
      match gateway.next codec id with
      | .compute after metrics =>
          some ⟨{ gateway.setHandler id after with metrics := metrics }, db, none⟩
      | .ping after =>
          some ⟨{ gateway.setHandler id after with pings := gateway.pings + 1 }, db, none⟩
      | _ => none
  | .readClock id now =>
      match gateway.next codec id with
      | .readClock after => some ⟨gateway.setHandler id (after now), db, none⟩
      | _ => none
  | .redis id clock outcome =>
      match gateway.next codec id with
      | .redis command after =>
          let result := command.attempt clock outcome db
          some ⟨gateway.setHandler id (after result.1), result.2, none⟩
      | _ => none
  | .write id written =>
      match gateway.next codec id with
      | .writeMessages message after =>
          some ⟨gateway.setHandler id (after written), db, some ⟨id, message, written⟩⟩
      | _ => none

/-! ## Moves by the step that they carry out -/

inductive Performs (codec : Codec Body Value) (gateway : Gateway Body) (db : Db) :
    Move Body → Moved Body Value → Prop where
  | request (body : Body) :
      Performs codec gateway db (.request body)
        ⟨{ gateway with handlers := gateway.handlers ++ [⟨.empty, .entered body⟩] }, db, none⟩
  | compute (id : Nat) (before after : Handler Body) (metrics : Metrics)
      (found : gateway.handlers[id]? = some before)
      (step : before.step codec gateway.metrics = .compute after metrics) :
      Performs codec gateway db (.compute id)
        ⟨{ gateway.setHandler id after with metrics := metrics }, db, none⟩
  | ping (id : Nat) (before after : Handler Body) (found : gateway.handlers[id]? = some before)
      (step : before.step codec gateway.metrics = .ping after) :
      Performs codec gateway db (.compute id)
        ⟨{ gateway.setHandler id after with pings := gateway.pings + 1 }, db, none⟩
  | readClock (id : Nat) (now : Int) (before : Handler Body) (after : Int → Handler Body)
      (found : gateway.handlers[id]? = some before)
      (step : before.step codec gateway.metrics = .readClock after) :
      Performs codec gateway db (.readClock id now)
        ⟨gateway.setHandler id (after now), db, none⟩
  | redis (id : Nat) (clock : Int) (outcome : Outcome) (before : Handler Body) (command : Command)
      (after : Reply → Handler Body) (found : gateway.handlers[id]? = some before)
      (step : before.step codec gateway.metrics = .redis command after) :
      Performs codec gateway db (.redis id clock outcome)
        ⟨gateway.setHandler id (after (command.attempt clock outcome db).1),
          (command.attempt clock outcome db).2, none⟩
  | write (id : Nat) (written : Bool) (before : Handler Body) (message : Message Value)
      (after : Bool → Handler Body) (found : gateway.handlers[id]? = some before)
      (step : before.step codec gateway.metrics = .writeMessages message after) :
      Performs codec gateway db (.write id written)
        ⟨gateway.setHandler id (after written), db, some ⟨id, message, written⟩⟩

section Performs

variable {codec : Codec Body Value} {gateway : Gateway Body}

theorem found_of_next {id : Nat} {step : Step Body Value} (h : gateway.next codec id = step)
    (hstep : step ≠ .halt) :
    ∃ before, gateway.handlers[id]? = some before ∧
      before.step codec gateway.metrics = step := by
  unfold next at h
  split at h
  · next before hfound => exact ⟨before, hfound, h⟩
  · exact absurd h.symm hstep

theorem performs_of_move {db : Db} {move : Move Body} {moved : Moved Body Value}
    (h : gateway.move codec db move = some moved) : Performs codec gateway db move moved := by
  cases move with
  | request body =>
      obtain rfl := Option.some.inj h
      exact .request body
  | compute id =>
      simp only [Gateway.move] at h
      split at h
      · next after metrics hnext =>
          obtain rfl := Option.some.inj h
          obtain ⟨before, hfound, hstep⟩ := found_of_next hnext (by simp)
          exact .compute id before after metrics hfound hstep
      · next after hnext =>
          obtain rfl := Option.some.inj h
          obtain ⟨before, hfound, hstep⟩ := found_of_next hnext (by simp)
          exact .ping id before after hfound hstep
      · contradiction
  | readClock id now =>
      simp only [Gateway.move] at h
      split at h
      · next after hnext =>
          obtain rfl := Option.some.inj h
          obtain ⟨before, hfound, hstep⟩ := found_of_next hnext (by simp)
          exact .readClock id now before after hfound hstep
      · contradiction
  | redis id clock outcome =>
      simp only [Gateway.move] at h
      split at h
      · next command after hnext =>
          obtain rfl := Option.some.inj h
          obtain ⟨before, hfound, hstep⟩ := found_of_next hnext (by simp)
          exact .redis id clock outcome before command after hfound hstep
      · contradiction
  | write id written =>
      simp only [Gateway.move] at h
      split at h
      · next message after hnext =>
          obtain rfl := Option.some.inj h
          obtain ⟨before, hfound, hstep⟩ := found_of_next hnext (by simp)
          exact .write id written before message after hfound hstep
      · contradiction

end Performs

end Gateway

end NexPulse.Ingest
