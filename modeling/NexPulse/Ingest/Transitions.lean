import NexPulse.Foundation.Pool
import NexPulse.Ingest.Gateway

/-!
# What a handler can do

One relation lists every step of a handler with what it leaves behind: the
metrics, whether the post to the anomaly service was started, the message handed
to the writer, and the command sent to Redis.  Properties of the gateway that
look at single steps are case splits over this list.
-/

namespace NexPulse.Ingest

open NexPulse.Foundation NexPulse.Foundation.Redis NexPulse.RateLimit

variable {Body Value : Type*}

def HasUser (event : Event) : Prop :=
  ∃ userID, event.string? "user_id" = some userID ∧ userID ≠ ""

structure Effect (Value : Type*) where
  metrics : Metrics
  pinged : Bool
  handed : Option (Message Value × Bool)
  asked : Option Command

def Effect.only (metrics : Metrics) : Effect Value := ⟨metrics, false, none, none⟩

inductive Goes (codec : Codec Body Value) (event : Event) (old : Metrics) :
    Point Body → Handler Body → Effect Value → Prop where
  | enter (body : Body) : Goes codec event old (.entered body) ⟨event, .binding body⟩
      (.only { old with activeConnections := old.activeConnections + 1 })
  | bindError (body : Body) (failed : codec.bindJSON body = none) :
      Goes codec event old (.binding body) ⟨event, .rejecting .badRequest⟩ (.only old)
  | bind (body : Body) (decoded : Event) (found : codec.bindJSON body = some decoded) :
      Goes codec event old (.binding body) ⟨decoded, .checking⟩ (.only old)
  | missing (missing : ¬ HasUser event) :
      Goes codec event old .checking ⟨event, .rejecting .missingUserId⟩ (.only old)
  | valid (userID : String) (found : event.string? "user_id" = some userID)
      (nonempty : userID ≠ "") :
      Goes codec event old .checking ⟨event, .pinging userID⟩ (.only old)
  | ping (userID : String) :
      Goes codec event old (.pinging userID) ⟨event, .readingClock userID⟩
        ⟨old, true, none, none⟩
  | readClock (userID : String) (now : Int) :
      Goes codec event old (.readingClock userID) ⟨event, .limiting userID now []⟩ (.only old)
  | reply (userID : String) (now : Int) (replies : List Reply) (reply : Reply) (command : Command)
      (asked : (pipeline userID window now)[replies.length]? = some command) :
      Goes codec event old (.limiting userID now replies)
        ⟨event, .limiting userID now (replies ++ [reply])⟩ ⟨old, false, none, some command⟩
  | limiterDown (userID : String) (now : Int) (replies : List Reply) (command : Command)
      (asked : (pipeline userID window now)[replies.length]? = some command) :
      Goes codec event old (.limiting userID now replies) ⟨event, .producing⟩
        ⟨old, false, none, some command⟩
  | limiterOpen (userID : String) (now : Int) (replies : List Reply)
      (finished : 4 ≤ replies.length) (allowed : verdict limit replies ≠ .ok false) :
      Goes codec event old (.limiting userID now replies) ⟨event, .producing⟩ (.only old)
  | limiterDenied (userID : String) (now : Int) (replies : List Reply)
      (finished : 4 ≤ replies.length) (denied : verdict limit replies = .ok false) :
      Goes codec event old (.limiting userID now replies) ⟨event, .limited⟩ (.only old)
  | limited : Goes codec event old .limited ⟨event, .rejecting .rateLimit⟩
      (.only { old with rateLimitHits := old.rateLimitHits + 1 })
  | marshalError (failed : codec.marshal event = none) :
      Goes codec event old .producing ⟨event, .rejecting .kafkaError⟩ (.only old)
  | panic (missing : event.string? "user_id" = none) :
      Goes codec event old .producing ⟨event, .leaving recovered⟩ (.only old)
  | write (message : Message Value) (written : Bool)
      (key : event.string? "user_id" = some message.key)
      (marshalled : codec.marshal event = some message.value) :
      Goes codec event old .producing
        ⟨event, if written then .counting else .rejecting .kafkaError⟩
        ⟨old, false, some (message, written), none⟩
  | count : Goes codec event old .counting ⟨event, .responding accepted⟩
      (.only { old with eventsIngested := old.eventsIngested + 1 })
  | reject (reason : Reason) :
      Goes codec event old (.rejecting reason) ⟨event, .responding reason.response⟩
        (.only { old with
          eventsRejected :=
            Function.update old.eventsRejected reason (old.eventsRejected reason + 1) })
  | respond (response : Response) :
      Goes codec event old (.responding response) ⟨event, .leaving response⟩ (.only old)
  | leave (response : Response) :
      Goes codec event old (.leaving response) ⟨event, .finished response⟩
        (.only { old with activeConnections := old.activeConnections - 1 })

def Step.Covered (codec : Codec Body Value) (before : Handler Body) (old : Metrics) :
    Step Body Value → Prop
  | .compute after new => Goes codec before.event old before.point after (.only new)
  | .ping after => Goes codec before.event old before.point after ⟨old, true, none, none⟩
  | .readClock after => ∀ now, Goes codec before.event old before.point (after now) (.only old)
  | .redis command after => ∀ reply, Goes codec before.event old before.point (after reply)
      ⟨old, false, none, some command⟩
  | .writeMessages message after => ∀ written, Goes codec before.event old before.point
      (after written) ⟨old, false, some (message, written), none⟩
  | .halt => True

theorem Handler.step_covered (codec : Codec Body Value) (old : Metrics) (handler : Handler Body) :
    (handler.step codec old).Covered codec handler old := by
  obtain ⟨event, point⟩ := handler
  cases point with
  | entered body => exact .enter body
  | binding body =>
      simp only [step]
      cases hbind : codec.bindJSON body with
      | none => exact .bindError body hbind
      | some decoded => exact .bind body decoded hbind
  | checking =>
      simp only [step]
      split
      · next hnone => exact .missing (by simp [HasUser, hnone])
      · next hempty => exact .missing (by simp [HasUser, hempty])
      · next userID hempty huser => exact .valid userID huser hempty
  | pinging userID => exact .ping userID
  | readingClock userID => exact fun now => .readClock userID now
  | limiting userID now replies =>
      simp only [step]
      split
      · next command hcommand =>
          intro reply
          dsimp only
          split
          · exact .limiterDown userID now replies command hcommand
          · exact .reply userID now replies reply command hcommand
      · next hdone =>
          have hle : 4 ≤ replies.length := List.getElem?_eq_none_iff.mp hdone
          split
          · next hverdict => exact .limiterOpen userID now replies hle (by simp [hverdict])
          · next hverdict => exact .limiterOpen userID now replies hle (by simp [hverdict])
          · next hverdict => exact .limiterDenied userID now replies hle hverdict
  | limited => exact .limited
  | producing =>
      simp only [step]
      cases hmarshal : codec.marshal event with
      | none => exact .marshalError hmarshal
      | some value =>
          cases huser : event.string? "user_id" with
          | none => exact .panic huser
          | some userID => exact fun written => .write ⟨userID, value⟩ written huser hmarshal
  | counting => exact .count
  | rejecting reason => exact .reject reason
  | responding response => exact .respond response
  | leaving response => exact .leave response
  | finished response => trivial

/-! ## Moves of the gateway -/

def Move.mover : Move Body → Option Nat
  | .request _ => none
  | .compute id | .readClock id _ | .redis id _ _ | .write id _ => some id

/-- What the command of a step, if there is one, can leave of the database. -/
def Effect.Leaves (effect : Effect Value) (db next : Db) : Prop :=
  match effect.asked with
  | none => next = db
  | some command => ∃ clock outcome, next = (command.attempt clock outcome db).2

inductive Turns (codec : Codec Body Value) (gateway : Gateway Body) (db : Db) :
    Option Nat → Moved Body Value → Prop where
  | request (body : Body) :
      Turns codec gateway db none
        ⟨{ gateway with handlers := gateway.handlers ++ [⟨.empty, .entered body⟩] }, db, none⟩
  | handler (id : Nat) (before after : Handler Body) (effect : Effect Value) (next : Db)
      (found : gateway.handlers[id]? = some before)
      (goes : Goes codec before.event gateway.metrics before.point after effect)
      (leaves : effect.Leaves db next) :
      Turns codec gateway db (some id)
        ⟨⟨gateway.handlers.set id after, effect.metrics, gateway.pings + effect.pinged.toNat⟩, next,
          effect.handed.map fun handed => ⟨id, handed.1, handed.2⟩⟩

theorem Gateway.turns_of_move {codec : Codec Body Value} {gateway : Gateway Body} {db : Db}
    {move : Move Body} {moved : Moved Body Value} (h : gateway.move codec db move = some moved) :
    Turns codec gateway db move.mover moved := by
  have hcovered (handler : Handler Body) {step : Step Body Value}
      (hstep : handler.step codec gateway.metrics = step) :
      step.Covered codec handler gateway.metrics :=
    hstep ▸ handler.step_covered codec gateway.metrics
  cases Gateway.performs_of_move h with
  | request body => exact .request body
  | compute id before after metrics hfound hstep =>
      exact .handler id before after _ db hfound (hcovered before hstep) rfl
  | ping id before after hfound hstep =>
      exact .handler id before after _ db hfound (hcovered before hstep) rfl
  | readClock id now before after hfound hstep =>
      exact .handler id before _ _ db hfound (hcovered before hstep now) rfl
  | redis id clock outcome before command after hfound hstep =>
      exact .handler id before _ _ _ hfound (hcovered before hstep _) ⟨clock, outcome, rfl⟩
  | write id written before message after hfound hstep =>
      exact .handler id before _ _ db hfound (hcovered before hstep written) rfl

/-! ## Accounts -/

/-- A quantity of the gateway to which each handler contributes one or nothing. -/
structure Account (Body Value : Type*) where
  read : Metrics → Nat → Int
  share : Handler Body → Bool
  entered : ∀ event body, share ⟨event, .entered body⟩ = false
  goes : ∀ {codec : Codec Body Value} {event : Event} {old : Metrics} {point : Point Body}
    {after : Handler Body} {effect : Effect Value} (pings : Nat),
    Goes codec event old point after effect →
      read effect.metrics (pings + effect.pinged.toNat) + (share ⟨event, point⟩).toNat =
        read old pings + (share after).toNat

def Account.Balanced (account : Account Body Value) (gateway : Gateway Body) : Prop :=
  account.read gateway.metrics gateway.pings = gateway.handlers.countP account.share

theorem Account.Balanced.turn {account : Account Body Value} {codec : Codec Body Value}
    {gateway : Gateway Body} {db : Db} {mover : Option Nat} {moved : Moved Body Value}
    (h : account.Balanced gateway) (hturn : Turns codec gateway db mover moved) :
    account.Balanced moved.gateway := by
  unfold Balanced at h ⊢
  cases hturn with
  | request body => simpa [account.entered] using h
  | handler id before after effect next hfound hgoes =>
      have hshare : account.read effect.metrics (gateway.pings + effect.pinged.toNat) +
          (account.share before).toNat = account.read gateway.metrics gateway.pings +
            (account.share after).toNat := account.goes gateway.pings hgoes
      have hcount := Pool.countP_set_add account.share after hfound
      dsimp only
      omega

end NexPulse.Ingest
