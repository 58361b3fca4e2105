import NexPulse.Ingest.Outcomes

/-!
# What an accepted request has published

A request that was answered with 202 has handed one message to the writer: the
event that its body was decoded to, encoded again.  The body is the one that the
first step of the handler was given.
-/

namespace NexPulse.Ingest

open NexPulse.Foundation NexPulse.Foundation.Redis NexPulse.RateLimit

variable {Body Value : Type*}

def Change.body? (change : Change Body Value) : Option Body :=
  match change.before.point with
  | .entered body => some body
  | _ => none

def Ledger.received (state : Ledger Body Value) (id : Nat) : Option Body :=
  (state.changesOf id).findSome? Change.body?

structure Published (codec : Codec Body Value) (received : Option Body)
    (messages : List (Handed Value)) (event : Event) : Prop where
  decoded : ∃ body, received = some body ∧ codec.bindJSON body = some event
  encoded : ∃ handed, messages = [handed] ∧ handed.written = true ∧
    codec.marshal event = some handed.message.value

def Carries (codec : Codec Body Value) (received : Option Body) (messages : List (Handed Value))
    (handler : Handler Body) : Prop :=
  match handler.point with
  | .entered _ => received = none ∧ messages = []
  | .binding body => received = some body ∧ messages = []
  | .checking | .pinging _ | .readingClock _ | .limiting .. | .limited | .producing =>
      (∃ body, received = some body ∧ codec.bindJSON body = some handler.event) ∧ messages = []
  | .counting => Published codec received messages handler.event
  | .rejecting _ => True
  | .responding response | .leaving response | .finished response =>
      response.status = 202 → Published codec received messages handler.event

section Carries

variable {codec : Codec Body Value} {received : Option Body} {messages : List (Handed Value)}
  {changes : List (Change Body Value)} {handler : Handler Body}

theorem Carries.step {before after : Handler Body} {old : Metrics} {effect : Effect Value}
    (change : Change Body Value) (hbefore : change.before = before)
    (hhanded : change.handed = effect.handed.map fun handed => ⟨change.id, handed.1, handed.2⟩)
    (h : Carries codec received messages before)
    (goes : Goes codec before.event old before.point after effect) :
    Carries codec (received.or change.body?) (messages ++ change.handed.toList) after := by
  obtain ⟨event, point⟩ := before
  rw [Change.body?, hbefore]
  dsimp only at goes
  cases goes with
  | enter body =>
      obtain ⟨rfl, rfl⟩ : received = none ∧ messages = [] := h
      rw [hhanded]
      exact ⟨rfl, rfl⟩
  | bind body decoded found =>
      obtain ⟨rfl, rfl⟩ : received = some body ∧ messages = [] := h
      rw [hhanded]
      exact ⟨⟨body, rfl, found⟩, rfl⟩
  | bindError | missing | limited | marshalError => trivial
  | valid | ping | readClock | reply | limiterDown | limiterOpen | limiterDenied =>
      obtain ⟨⟨body, rfl, hbody⟩, rfl⟩ :
        (∃ body, received = some body ∧ codec.bindJSON body = some event) ∧ messages = [] := h
      rw [hhanded]
      exact ⟨⟨body, rfl, hbody⟩, rfl⟩
  | panic => exact fun hstatus => absurd hstatus (by decide)
  | write message written key marshalled =>
      obtain ⟨⟨body, rfl, hbody⟩, rfl⟩ :
        (∃ body, received = some body ∧ codec.bindJSON body = some event) ∧ messages = [] := h
      rw [hhanded]
      cases written with
      | true => exact ⟨⟨body, rfl, hbody⟩, _, rfl, rfl, marshalled⟩
      | false => trivial
  | count =>
      have hpublished : Published codec received messages event := h
      rw [hhanded]
      simpa [Carries, Effect.only] using fun _ => hpublished
  | reject reason => exact fun hstatus => absurd hstatus (by cases reason <;> decide)
  | respond response | leave response =>
      have hpublished : response.status = 202 → Published codec received messages event := h
      rw [hhanded]
      simpa [Carries, Effect.only] using hpublished

theorem Life.carries (h : Life codec changes handler) :
    Carries codec (changes.findSome? Change.body?) (changes.filterMap Change.handed) handler := by
  induction h with
  | entered body => exact ⟨rfl, rfl⟩
  | step id life goes ih =>
      rw [List.findSome?_append, List.filterMap_append, List.findSome?_singleton,
        filterMap_singleton]
      exact ih.step _ rfl rfl goes

end Carries

/-! ## Whole runs -/

section Run

variable {codec : Codec Body Value} {db : Db} {labels : List (Happening Body)}
  {state : Ledger Body Value}

theorem published_of_run (hrun : (ledger codec).run (Ledger.start db) labels = some state)
    {id : Nat} {handler : Handler Body} {response : Response}
    (hfound : state.gateway.handlers[id]? = some handler)
    (hpoint : handler.point = .finished response) (hstatus : response.status = 202) :
    Published codec (state.received id) (state.handed id) handler.event ∧
      HasUser handler.event := by
  have hrecorded := recorded_of_run hrun
  have hcarries := (hrecorded.lives.life id handler hfound).carries
  have hcome := hrecorded.come hfound
  obtain ⟨event, point⟩ := handler
  dsimp only at hpoint
  subst hpoint
  have hpublished : Published codec (state.received id) (state.handed id) event :=
    hcarries hstatus
  refine ⟨hpublished, ?_⟩
  obtain ⟨handed, hhanded, -⟩ := hpublished.encoded
  rcases hcome.1 with hnone | ⟨-, other, -, huser, hnonempty⟩
  · rw [hnone] at hhanded
    contradiction
  · exact ⟨_, huser, hnonempty⟩

end Run

/-! ## A request that is accepted -/

def acceptedRun (body : Body) : List (Happening Body) :=
  [.request body, .compute 0, .compute 0, .compute 0, .compute 0, .readClock 0 5,
    .redis 0 5 .notExecuted, .write 0 true, .compute 0, .compute 0, .compute 0].map .move

section Lone

variable {codec : Codec Body Value} {before after : Handler Body} {old new : Metrics}
  {pings pinged : Nat} {db next : Db} {history : List (Change Body Value)}

theorem lone_compute (h : before.step codec old = .compute after new) :
    Gateway.move codec ⟨[before], old, pings⟩ db (.compute 0) =
      some ⟨⟨[after], new, pings⟩, db, none⟩ := by
  simp [Gateway.move, Gateway.next, Gateway.setHandler, h]

theorem lone_write {message : Message Value} {after : Bool → Handler Body} (written : Bool)
    (h : before.step codec old = .writeMessages message after) :
    Gateway.move codec ⟨[before], old, pings⟩ db (.write 0 written) =
      some ⟨⟨[after written], old, pings⟩, db, some ⟨0, message, written⟩⟩ := by
  simp [Gateway.move, Gateway.next, Gateway.setHandler, h]

theorem lone_step {move : Move Body} {handed : Option (Handed Value)}
    (hmover : move.mover = some 0)
    (h : Gateway.move codec ⟨[before], old, pings⟩ db move =
      some ⟨⟨[after], new, pinged⟩, next, handed⟩) :
    (ledger codec).step ⟨⟨[before], old, pings⟩, db, history⟩ (.move move) =
      some ⟨⟨[after], new, pinged⟩, next, history ++ [⟨0, before, after, old, new, handed⟩]⟩ := by
  simp [ledger, h, hmover, Ledger.record, Ledger.change?]

theorem finished_of_acceptedRun {body : Body} {event : Event} {userID : String} {value : Value}
    (hbind : codec.bindJSON body = some event) (huser : event.string? "user_id" = some userID)
    (hnonempty : userID ≠ "") (hmarshal : codec.marshal event = some value) :
    ∃ state, (ledger codec).run (Ledger.start fun _ => none) (acceptedRun body) = some state ∧
      state.gateway.handlers[0]? = some ⟨event, .finished accepted⟩ ∧
      state.received 0 = some body ∧ state.handed 0 = [⟨0, ⟨userID, value⟩, true⟩] := by
  have hbound (metrics : Metrics) : Handler.step codec metrics ⟨.empty, .binding body⟩ =
      .compute ⟨event, .checking⟩ metrics := by
    simp [Handler.step, hbind]
  have hchecked (metrics : Metrics) : Handler.step codec metrics ⟨event, .checking⟩ =
      .compute ⟨event, .pinging userID⟩ metrics := by
    simp [Handler.step, huser]
  have hproduced (metrics : Metrics) : Handler.step codec metrics ⟨event, .producing⟩ =
      .writeMessages ⟨userID, value⟩ fun written =>
        ⟨event, if written then .counting else .rejecting .kafkaError⟩ := by
    simp [Handler.step, huser, hmarshal]
  refine ⟨?state, ?run, ?finished⟩
  case run =>
    refine (System.run_cons_eq_some _).mpr ⟨_, rfl, ?_⟩
    refine (System.run_cons_eq_some _).mpr ⟨_, lone_step rfl rfl, ?_⟩
    refine (System.run_cons_eq_some _).mpr ⟨_, lone_step rfl (lone_compute (hbound _)), ?_⟩
    refine (System.run_cons_eq_some _).mpr ⟨_, lone_step rfl (lone_compute (hchecked _)), ?_⟩
    refine (System.run_cons_eq_some _).mpr ⟨_, lone_step rfl rfl, ?_⟩
    refine (System.run_cons_eq_some _).mpr ⟨_, lone_step rfl rfl, ?_⟩
    refine (System.run_cons_eq_some _).mpr ⟨_, lone_step rfl rfl, ?_⟩
    refine (System.run_cons_eq_some _).mpr ⟨_, lone_step rfl (lone_write true (hproduced _)), ?_⟩
    refine (System.run_cons_eq_some _).mpr ⟨_, lone_step rfl rfl, ?_⟩
    refine (System.run_cons_eq_some _).mpr ⟨_, lone_step rfl rfl, ?_⟩
    refine (System.run_cons_eq_some _).mpr ⟨_, lone_step rfl rfl, ?_⟩
    rfl
  case finished => exact ⟨rfl, rfl, rfl⟩

end Lone

end NexPulse.Ingest
