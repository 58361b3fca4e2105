import NexPulse.Ingest.Transitions

/-!
# What the handlers have done so far

The point of a handler tells whether its event has been accepted by the writer,
whether it has been counted as ingested, and whether it is on the way of a
Kafka error.  A step that hands nothing to the writer leaves the first of these
marks alone; a step that does settles it.  The metrics and the published events
of the gateway follow from the marks of its handlers.
-/

namespace NexPulse.Ingest

open NexPulse.Foundation NexPulse.Foundation.Redis NexPulse.RateLimit

variable {Body Value : Type*}

namespace Handler

def response? (handler : Handler Body) : Option Response :=
  match handler.point with
  | .responding response | .leaving response | .finished response => some response
  | _ => none

/-- The event, once WriteMessages has returned nil for it. -/
def published? (handler : Handler Body) : Option Event :=
  match handler.point with
  | .counting => some handler.event
  | .responding response | .leaving response | .finished response =>
      if response.status = 202 then some handler.event else none
  | _ => none

def ingested (handler : Handler Body) : Bool :=
  handler.response?.any fun response => response.status = 202

def rejectedFor (reason : Reason) (handler : Handler Body) : Bool :=
  handler.response? = some reason.response

/-- Counted as a Kafka error, or about to be. -/
def kafkaFailed (handler : Handler Body) : Bool :=
  match handler.point with
  | .rejecting reason => reason = .kafkaError
  | _ => handler.rejectedFor .kafkaError

/-- While the event is in use, it is what some body was decoded to. -/
def Decoded (codec : Codec Body Value) (handler : Handler Body) : Prop :=
  match handler.point with
  | .checking | .pinging _ | .readingClock _ | .limiting .. | .limited | .producing =>
      ∃ body, codec.bindJSON body = some handler.event
  | _ => True

theorem published_of_ingested {handler : Handler Body} (h : handler.ingested = true) :
    handler.published? = some handler.event := by
  obtain ⟨event, point⟩ := handler
  cases point <;> simp_all [ingested, response?, published?]

theorem kafkaFailed_of_published {handler : Handler Body} {event : Event}
    (h : handler.published? = some event) : handler.kafkaFailed = false := by
  obtain ⟨own, point⟩ := handler
  cases point with
  | responding response | leaving response | finished response =>
      have hstatus : response.status = 202 := by
        by_contra hother
        simp [published?, hother] at h
      have hresponse : response ≠ Reason.kafkaError.response := by
        rintro rfl
        contradiction
      simp [kafkaFailed, rejectedFor, response?, hresponse]
  | counting => rfl
  | _ => contradiction

end Handler

/-! ## What a step does to the marks -/

section Goes

variable {codec : Codec Body Value} {before after : Handler Body} {old : Metrics}
  {effect : Effect Value}

theorem Goes.published (h : Goes codec before.event old before.point after effect)
    (hquiet : effect.handed = none) : after.published? = before.published? := by
  obtain ⟨event, point⟩ := before
  dsimp only at h
  cases h with
  | write => contradiction
  | reject reason => cases reason <;> rfl
  | _ => rfl

theorem Goes.kafkaFailed (h : Goes codec before.event old before.point after effect)
    (hfailed : before.kafkaFailed = true) : after.kafkaFailed = true := by
  obtain ⟨event, point⟩ := before
  dsimp only at h
  cases h with
  | reject reason =>
      obtain rfl : reason = .kafkaError := of_decide_eq_true hfailed
      rfl
  | respond | leave => exact hfailed
  | _ => contradiction

theorem Goes.decoded (h : Goes codec before.event old before.point after effect)
    (hdecoded : before.Decoded codec) : after.Decoded codec := by
  obtain ⟨event, point⟩ := before
  dsimp only at h
  cases h with
  | bind body decoded found => exact ⟨body, found⟩
  | write message written => cases written <;> trivial
  | valid | ping | readClock | reply | limiterDown | limiterOpen | limiterDenied => exact hdecoded
  | _ => trivial

structure Wrote (codec : Codec Body Value) (before after : Handler Body) (message : Message Value)
    (written : Bool) : Prop where
  unpublished : before.published? = none
  unfailed : before.kafkaFailed = false
  marshalled : codec.marshal before.event = some message.value
  key : before.event.string? "user_id" = some message.key
  decoded : before.Decoded codec → ∃ body, codec.bindJSON body = some before.event
  published : after.published? = if written then some before.event else none
  failed : after.kafkaFailed = !written

theorem Goes.wrote (h : Goes codec before.event old before.point after effect)
    {message : Message Value} {written : Bool} (hhanded : effect.handed = some (message, written)) :
    Wrote codec before after message written := by
  obtain ⟨event, point⟩ := before
  dsimp only at h
  cases h with
  | write other accepted key marshalled =>
      obtain ⟨rfl, rfl⟩ : other = message ∧ accepted = written := by simpa using hhanded
      refine ⟨rfl, rfl, marshalled, key, id, ?_, ?_⟩ <;> cases accepted <;> rfl
  | _ => contradiction

theorem Goes.limiter (h : Goes codec before.event old before.point after effect)
    {command : Command} (hasked : effect.asked = some command) :
    ∃ userID, command.key = userKey userID := by
  obtain ⟨event, point⟩ := before
  dsimp only at h
  cases h with
  | reply userID now replies reply sent hsent | limiterDown userID now replies sent hsent =>
      obtain rfl := Option.some.inj hasked
      exact ⟨userID, (pipeline_onSetAt userID window now sent (List.mem_of_getElem? hsent)).1⟩
  | _ => contradiction

end Goes

/-! ## The accounts of the gateway -/

namespace Account

def ingested : Account Body Value where
  read metrics _ := metrics.eventsIngested
  share := Handler.ingested
  entered _ _ := rfl
  goes pings h := by
    cases h with
    | write message written => cases written <;> simp [Handler.ingested, Handler.response?]
    | reject reason =>
        cases reason <;> simp [Handler.ingested, Handler.response?, Effect.only, Reason.response]
    | _ => simp [Handler.ingested, Handler.response?, Effect.only, accepted, recovered]

def rejected (reason : Reason) : Account Body Value where
  read metrics _ := metrics.eventsRejected reason
  share := Handler.rejectedFor reason
  entered _ _ := rfl
  goes pings h := by
    cases h with
    | write message written => cases written <;> simp [Handler.rejectedFor, Handler.response?]
    | reject counted =>
        cases reason <;> cases counted <;>
          simp [Handler.rejectedFor, Handler.response?, Effect.only, Reason.response]
    | _ =>
        cases reason <;>
          simp [Handler.rejectedFor, Handler.response?, Effect.only, Reason.response, accepted,
            recovered]

end Account

structure Gateway.Accounted (codec : Codec Body Value) (gateway : Gateway Body) : Prop where
  ingested : gateway.metrics.eventsIngested = gateway.handlers.countP Handler.ingested
  rejected : ∀ reason, gateway.metrics.eventsRejected reason =
    gateway.handlers.countP (Handler.rejectedFor reason)
  decoded : ∀ handler ∈ gateway.handlers, handler.Decoded codec

section Turns

variable {codec : Codec Body Value} {gateway : Gateway Body} {db : Db} {mover : Option Nat}
  {moved : Moved Body Value}

theorem Gateway.accounted_init : (Gateway.init : Gateway Body).Accounted codec :=
  ⟨rfl, fun _ => rfl, fun _ hmem => absurd hmem List.not_mem_nil⟩

theorem Gateway.Accounted.turn (h : gateway.Accounted codec)
    (hturn : Turns codec gateway db mover moved) : moved.gateway.Accounted codec := by
  have hbalance (account : Account Body Value) (hbalanced : account.Balanced gateway) :=
    hbalanced.turn hturn
  refine ⟨?_, fun reason => ?_, ?_⟩
  · exact Int.ofNat.inj (hbalance .ingested (congrArg Int.ofNat h.ingested))
  · exact Int.ofNat.inj (hbalance (.rejected reason) (congrArg Int.ofNat (h.rejected reason)))
  · cases hturn with
    | request body =>
        intro handler hmem
        rcases List.mem_append.mp hmem with hold | hnew
        · exact h.decoded handler hold
        · obtain rfl := List.mem_singleton.mp hnew
          trivial
    | handler id before after effect next hfound hgoes =>
        intro handler hmem
        rcases List.mem_or_eq_of_mem_set hmem with hold | rfl
        · exact h.decoded handler hold
        · exact hgoes.decoded (h.decoded before (List.mem_of_getElem? hfound))

def LimiterOnly (db next : Db) : Prop :=
  next = db ∨ ∃ (command : Command) (clock : Int) (outcome : Outcome) (userID : String),
    command.key = userKey userID ∧ next = (command.attempt clock outcome db).2

theorem limiterOnly_of_turn (hturn : Turns codec gateway db mover moved) :
    LimiterOnly db moved.db := by
  cases hturn with
  | request body => exact .inl rfl
  | handler id before after effect next hfound hgoes hleaves =>
      unfold Effect.Leaves at hleaves
      split at hleaves
      · exact .inl hleaves
      · next command hasked =>
          obtain ⟨clock, outcome, hnext⟩ := hleaves
          obtain ⟨userID, hkey⟩ := hgoes.limiter hasked
          exact .inr ⟨command, clock, outcome, userID, hkey, hnext⟩

/-! ## The published events -/

def Gateway.published (gateway : Gateway Body) : List Event :=
  gateway.handlers.filterMap Handler.published?

/-- The message for which WriteMessages has returned nil in a move. -/
def Moved.written (moved : Moved Body Value) : List (Message Value) :=
  match moved.handed with
  | some handed => if handed.written then [handed.message] else []
  | none => []

theorem written_encodes (hcodec : codec.RoundTrip) (h : gateway.Accounted codec)
    (hturn : Turns codec gateway db mover moved) {message : Message Value}
    (hmem : message ∈ moved.written) :
    ∃ event, codec.unmarshal message.value = some event ∧
      event.string? "user_id" = some message.key ∧
      moved.gateway.published.Perm (gateway.published ++ [event]) := by
  cases hturn with
  | request => exact absurd hmem List.not_mem_nil
  | handler id before after effect next hfound hgoes =>
      cases hhanded : effect.handed with
      | none => simp [Moved.written, hhanded] at hmem
      | some handed =>
          obtain ⟨other, written⟩ := handed
          have hwrote := hgoes.wrote hhanded
          cases written with
          | false => simp [Moved.written, hhanded] at hmem
          | true =>
              obtain rfl : message = other := by simpa [Moved.written, hhanded] using hmem
              have hbefore := h.decoded before (List.mem_of_getElem? hfound)
              obtain ⟨body, hbody⟩ := hwrote.decoded hbefore
              obtain ⟨value, hvalue, hdecoded⟩ := hcodec body before.event hbody
              obtain rfl := Option.some.inj (hwrote.marshalled.symm.trans hvalue)
              exact ⟨before.event, hdecoded, hwrote.key,
                Pool.filterMap_set_perm hfound hwrote.unpublished hwrote.published⟩

theorem published_of_unwritten (hturn : Turns codec gateway db mover moved)
    (hnone : moved.written = []) : moved.gateway.published = gateway.published := by
  cases hturn with
  | request body =>
      have hnew : ([⟨.empty, .entered body⟩] : List (Handler Body)).filterMap Handler.published? =
          [] := rfl
      simp [Gateway.published, hnew]
  | handler id before after effect next hfound hgoes =>
      refine Pool.filterMap_set_of_eq hfound ?_
      cases hhanded : effect.handed with
      | none => exact hgoes.published hhanded
      | some handed =>
          obtain ⟨message, written⟩ := handed
          have hwrote := hgoes.wrote hhanded
          cases written with
          | false => exact hwrote.published.trans hwrote.unpublished.symm
          | true => simp [Moved.written, hhanded] at hnone

theorem published_turn (hcodec : codec.RoundTrip) (h : gateway.Accounted codec)
    (hturn : Turns codec gateway db mover moved) :
    (moved.gateway.published.map some).Perm
      (gateway.published.map some ++
        moved.written.map fun message => codec.unmarshal message.value) := by
  have hcases : moved.written = [] ∨ ∃ message, moved.written = [message] := by
    unfold Moved.written
    cases moved.handed with
    | none => exact .inl rfl
    | some handed =>
        dsimp only
        split <;> simp
  rcases hcases with hnone | ⟨message, hone⟩
  · rw [published_of_unwritten hturn hnone, hnone, List.map_nil, List.append_nil]
  · obtain ⟨event, hdecoded, -, hperm⟩ :=
      written_encodes hcodec h hturn (hone ▸ List.mem_singleton_self message)
    simpa [hone, hdecoded] using hperm.map some

end Turns

/-! ## The handlers one by one -/

namespace Gateway

def publishedAt (gateway : Gateway Body) (id : Nat) : Option Event :=
  gateway.handlers[id]?.bind Handler.published?

def failedAt (gateway : Gateway Body) (id : Nat) : Bool :=
  gateway.handlers[id]?.any Handler.kafkaFailed

variable {codec : Codec Body Value} {gateway : Gateway Body} {db : Db} {mover : Option Nat}
  {moved : Moved Body Value}

theorem failedAt_of_publishedAt {id : Nat} {event : Event}
    (h : gateway.publishedAt id = some event) : gateway.failedAt id = false := by
  obtain ⟨handler, hfound, hpublished⟩ := Option.bind_eq_some_iff.mp h
  simp [failedAt, hfound, Handler.kafkaFailed_of_published hpublished]

theorem publishedAt_turn (hturn : Turns codec gateway db mover moved) (hquiet : moved.handed = none)
    (id : Nat) :
    moved.gateway.publishedAt id = gateway.publishedAt id ∧
      (gateway.failedAt id = true → moved.gateway.failedAt id = true) := by
  cases hturn with
  | request body =>
      simp only [publishedAt, failedAt]
      rw [List.getElem?_append]
      split
      · exact ⟨rfl, fun hfailed => hfailed⟩
      · next hout =>
          have hnone : gateway.handlers[id]? = none := List.getElem?_eq_none (not_lt.mp hout)
          rw [hnone]
          refine ⟨?_, fun hfailed => absurd hfailed Bool.false_ne_true⟩
          cases hlast : ([⟨.empty, .entered body⟩] : List (Handler Body))[id -
              gateway.handlers.length]? with
          | none => rfl
          | some handler =>
              obtain rfl := List.mem_singleton.mp (List.mem_of_getElem? hlast)
              rfl
  | handler other before after effect next hfound hgoes =>
      have hnone : effect.handed = none := Option.map_eq_none_iff.mp hquiet
      by_cases hself : id = other
      · subst hself
        have hlt := (List.getElem?_eq_some_iff.mp hfound).1
        simp only [publishedAt, failedAt, hfound, List.getElem?_set_self hlt, Option.bind_some,
          Option.any_some]
        exact ⟨hgoes.published hnone, hgoes.kafkaFailed⟩
      · simp only [publishedAt, failedAt]
        rw [List.getElem?_set_ne (Ne.symm hself)]
        exact ⟨rfl, fun hfailed => hfailed⟩

theorem publishedAt_write {handed : Handed Value} (hturn : Turns codec gateway db mover moved)
    (hhanded : moved.handed = some handed) :
    gateway.publishedAt handed.id = none ∧ gateway.failedAt handed.id = false ∧
      ∃ event, codec.marshal event = some handed.message.value ∧
        event.string? "user_id" = some handed.message.key ∧
        moved.gateway.publishedAt handed.id = (if handed.written then some event else none) ∧
        moved.gateway.failedAt handed.id = !handed.written ∧
        ∀ id, id ≠ handed.id → moved.gateway.publishedAt id = gateway.publishedAt id ∧
          moved.gateway.failedAt id = gateway.failedAt id := by
  cases hturn with
  | request => contradiction
  | handler id before after effect next hfound hgoes =>
      obtain ⟨⟨message, written⟩, heffect, rfl⟩ := Option.map_eq_some_iff.mp hhanded
      have hwrote := hgoes.wrote heffect
      have hlt := (List.getElem?_eq_some_iff.mp hfound).1
      simp only [publishedAt, failedAt, hfound, List.getElem?_set_self hlt, Option.bind_some,
        Option.any_some]
      refine ⟨hwrote.unpublished, hwrote.unfailed, before.event, hwrote.marshalled, hwrote.key,
        hwrote.published, hwrote.failed, fun other hother => ?_⟩
      rw [List.getElem?_set_ne (Ne.symm hother)]
      exact ⟨rfl, rfl⟩

end Gateway

end NexPulse.Ingest
