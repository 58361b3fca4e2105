import NexPulse.Ingest.Published

/-!
# The handler as one call

`handleIngest` is the handler with nothing between its statements: given the
answer of the limiter and that of the writer, it says which metrics are counted,
what the limiter was asked and what the writer was handed.  A request that is
over has come to the result of one such call, whatever ran beside it.
-/

namespace NexPulse.Ingest

open NexPulse.Foundation NexPulse.Foundation.Redis NexPulse.RateLimit

variable {Body Value : Type*}

structure Call (Value : Type*) where
  rejected : Option Reason
  answers : List (Except Error Bool)
  handed : List (Message Value × Bool)

def responseOf (rejected : Option Reason) : Response :=
  (rejected.map Reason.response).getD accepted

/-- HandleIngest when AllowRequest would return `answer` and WriteMessages `written`. -/
def handleIngest (codec : Codec Body Value) (answer : Except Error Bool) (written : Bool)
    (body : Body) : Call Value :=
  match codec.bindJSON body with
  | none => ⟨some .badRequest, [], []⟩
  | some event =>
      match event.string? "user_id" with
      | none | some "" => ⟨some .missingUserId, [], []⟩
      | some userID =>
          match answer with
          | .ok false => ⟨some .rateLimit, [answer], []⟩
          -- After an error the handler goes on, as after `true`.
          | .ok true | .error _ =>
              match codec.marshal event with
              | none => ⟨some .kafkaError, [answer], []⟩
              | some value =>
                  ⟨if written then none else some .kafkaError, [answer],
                    [(⟨userID, value⟩, written)]⟩

theorem status_responseOf (rejected : Option Reason) :
    (responseOf rejected).status = 202 ↔ rejected = none := by
  rcases rejected with - | reason
  · decide
  · cases reason <;> decide

theorem responseOf_eq_iff (rejected : Option Reason) (reason : Reason) :
    responseOf rejected = reason.response ↔ rejected = some reason := by
  rcases rejected with - | own
  · cases reason <;> decide
  · cases own <;> cases reason <;> decide

section Call

variable {codec : Codec Body Value} {answer : Except Error Bool} {written : Bool} {body : Body}
  {event : Event} {userID : String} {value : Value}

theorem handleIngest_unbound (hbind : codec.bindJSON body = none) :
    handleIngest codec answer written body = ⟨some .badRequest, [], []⟩ := by
  rw [handleIngest, hbind]

theorem handleIngest_missing (hbind : codec.bindJSON body = some event)
    (hmissing : ¬ HasUser event) :
    handleIngest codec answer written body = ⟨some .missingUserId, [], []⟩ := by
  rw [handleIngest, hbind]
  dsimp only
  split
  · rfl
  · rfl
  · next found hempty hfound => exact absurd ⟨found, hfound, hempty⟩ hmissing

theorem handleIngest_limited (hbind : codec.bindJSON body = some event) (huser : HasUser event) :
    handleIngest codec (.ok false) written body = ⟨some .rateLimit, [.ok false], []⟩ := by
  obtain ⟨userID, hfound, hnonempty⟩ := huser
  rw [handleIngest, hbind]
  dsimp only
  split
  · next hnone => simp [hfound] at hnone
  · next hempty => exact absurd (Option.some.inj (hfound.symm.trans hempty)) hnonempty
  · rfl

theorem handleIngest_through (hbind : codec.bindJSON body = some event)
    (huser : event.string? "user_id" = some userID) (hnonempty : userID ≠ "")
    (hanswer : answer ≠ .ok false) :
    handleIngest codec answer written body =
      match codec.marshal event with
      | none => ⟨some .kafkaError, [answer], []⟩
      | some value =>
          ⟨if written then none else some .kafkaError, [answer], [(⟨userID, value⟩, written)]⟩ := by
  rw [handleIngest, hbind]
  dsimp only
  split
  · next hnone => simp [huser] at hnone
  · next hempty => exact absurd (Option.some.inj (huser.symm.trans hempty)) hnonempty
  · next found _ hfound =>
      obtain rfl := Option.some.inj (huser.symm.trans hfound)
      rcases answer with failure | allowed
      · rfl
      · cases allowed with
        | false => exact absurd rfl hanswer
        | true => rfl

end Call

/-! ## The steps of a request -/

def Handed.outcome (handed : Handed Value) : Message Value × Bool :=
  (handed.message, handed.written)

def Bound (codec : Codec Body Value) (received : Option Body) (event : Event) : Prop :=
  ∃ body, received = some body ∧ codec.bindJSON body = some event

def Called (codec : Codec Body Value) (received : Option Body) (call : Call Value) : Prop :=
  ∃ body answer written, received = some body ∧ handleIngest codec answer written body = call

/-- What a call for the body has done when the handler has come to its point. -/
def Follows (codec : Codec Body Value) (received : Option Body)
    (answers : List (Except Error Bool)) (handed : List (Message Value × Bool))
    (handler : Handler Body) : Prop :=
  match handler.point with
  | .entered _ => received = none ∧ answers = [] ∧ handed = []
  | .binding body => received = some body ∧ answers = [] ∧ handed = []
  | .checking => Bound codec received handler.event ∧ answers = [] ∧ handed = []
  | .pinging _ | .readingClock _ | .limiting .. =>
      (Bound codec received handler.event ∧ HasUser handler.event) ∧ answers = [] ∧ handed = []
  | .limited =>
      (Bound codec received handler.event ∧ HasUser handler.event) ∧ answers = [.ok false] ∧
        handed = []
  | .producing =>
      (Bound codec received handler.event ∧ HasUser handler.event) ∧ LetThrough answers ∧
        handed = []
  | .counting => Called codec received ⟨none, answers, handed⟩
  | .rejecting reason => Called codec received ⟨some reason, answers, handed⟩
  | .responding response | .leaving response | .finished response =>
      ∃ call, Called codec received call ∧ response = responseOf call.rejected ∧
        answers = call.answers ∧ handed = call.handed

section Follows

variable {codec : Codec Body Value} {received : Option Body}
  {answers : List (Except Error Bool)} {handed : List (Message Value × Bool)}
  {changes : List (Change Body Value)} {handler : Handler Body}

theorem Called.ended {rejected : Option Reason}
    (h : Called codec received ⟨rejected, answers, handed⟩) :
    ∃ call, Called codec received call ∧ responseOf rejected = responseOf call.rejected ∧
      answers = call.answers ∧ handed = call.handed :=
  ⟨_, h, rfl, rfl, rfl⟩

theorem Follows.step {before after : Handler Body} {old : Metrics} {effect : Effect Value}
    (change : Change Body Value) (hbefore : change.before = before)
    (h : Follows codec received answers handed before)
    (goes : Goes codec before.event old before.point after effect) :
    Follows codec (received.or change.body?)
      (answers ++ (answer? before.point after.point).toList)
      (handed ++ effect.handed.toList) after := by
  obtain ⟨event, point⟩ := before
  rw [Change.body?, hbefore]
  dsimp only at goes
  cases goes with
  | enter body =>
      obtain ⟨rfl, rfl, rfl⟩ : received = none ∧ answers = [] ∧ handed = [] := h
      exact ⟨rfl, rfl, rfl⟩
  | bindError body failed =>
      obtain ⟨rfl, rfl, rfl⟩ : received = some body ∧ answers = [] ∧ handed = [] := h
      exact ⟨body, .ok true, true, rfl, handleIngest_unbound failed⟩
  | bind body decoded found =>
      obtain ⟨rfl, rfl, rfl⟩ : received = some body ∧ answers = [] ∧ handed = [] := h
      exact ⟨⟨body, rfl, found⟩, rfl, rfl⟩
  | missing missing =>
      obtain ⟨⟨body, rfl, hbind⟩, rfl, rfl⟩ :
        Bound codec received event ∧ answers = [] ∧ handed = [] := h
      exact ⟨body, .ok true, true, rfl, handleIngest_missing hbind missing⟩
  | valid userID found nonempty =>
      obtain ⟨⟨body, rfl, hbind⟩, rfl, rfl⟩ :
        Bound codec received event ∧ answers = [] ∧ handed = [] := h
      exact ⟨⟨⟨body, rfl, hbind⟩, userID, found, nonempty⟩, rfl, rfl⟩
  | ping | readClock | reply | respond | leave =>
      simpa [Follows, answer?, Effect.only] using h
  | limiterDown userID now replies command asked =>
      have unfinished : replies.length < 4 := (List.getElem?_eq_some_iff.mp asked).1
      obtain ⟨hbound, rfl, rfl⟩ :
        (Bound codec received event ∧ HasUser event) ∧ answers = [] ∧ handed = [] := h
      simp [Follows, answer?, hbound, unfinished, LetThrough]
  | limiterOpen userID now replies finished allowed =>
      obtain ⟨hbound, rfl, rfl⟩ :
        (Bound codec received event ∧ HasUser event) ∧ answers = [] ∧ handed = [] := h
      simp [Follows, answer?, Effect.only, hbound, Nat.not_lt.mpr finished, LetThrough, allowed]
  | limiterDenied userID now replies finished denied =>
      obtain ⟨hbound, rfl, rfl⟩ :
        (Bound codec received event ∧ HasUser event) ∧ answers = [] ∧ handed = [] := h
      simp [Follows, answer?, Effect.only, hbound, Nat.not_lt.mpr finished, denied]
  | limited =>
      obtain ⟨⟨⟨body, rfl, hbind⟩, huser⟩, rfl, rfl⟩ :
        (Bound codec received event ∧ HasUser event) ∧ answers = [.ok false] ∧ handed = [] := h
      exact ⟨body, .ok false, true, rfl, handleIngest_limited hbind huser⟩
  | marshalError failed =>
      obtain ⟨⟨⟨body, rfl, hbind⟩, userID, huser, hnonempty⟩, ⟨answer, rfl, hanswer⟩, rfl⟩ :
        (Bound codec received event ∧ HasUser event) ∧ LetThrough answers ∧ handed = [] := h
      refine ⟨body, answer, true, rfl, ?_⟩
      rw [handleIngest_through hbind huser hnonempty hanswer, failed]
      rfl
  | panic missing =>
      obtain ⟨⟨-, userID, huser, -⟩, -⟩ :
        (Bound codec received event ∧ HasUser event) ∧ LetThrough answers ∧ handed = [] := h
      rw [missing] at huser
      contradiction
  | write message written key marshalled =>
      obtain ⟨⟨⟨body, rfl, hbind⟩, userID, huser, hnonempty⟩, ⟨answer, rfl, hanswer⟩, rfl⟩ :
        (Bound codec received event ∧ HasUser event) ∧ LetThrough answers ∧ handed = [] := h
      obtain rfl : message.key = userID := Option.some.inj (key.symm.trans huser)
      have hcall : handleIngest codec answer written body =
          ⟨if written then none else some .kafkaError, [answer], [(message, written)]⟩ := by
        rw [handleIngest_through hbind huser hnonempty hanswer, marshalled]
      cases written with
      | true => exact ⟨body, answer, true, rfl, hcall⟩
      | false => exact ⟨body, answer, false, rfl, hcall⟩
  | count =>
      have hcalled : Called codec received ⟨none, answers, handed⟩ := h
      simpa [Follows, answer?, Effect.only, responseOf] using hcalled.ended
  | reject reason =>
      have hcalled : Called codec received ⟨some reason, answers, handed⟩ := h
      simpa [Follows, answer?, Effect.only, responseOf] using hcalled.ended

theorem Life.follows (h : Life codec changes handler) :
    Follows codec (changes.findSome? Change.body?) (changes.filterMap Change.answer?)
      ((changes.filterMap Change.handed).map Handed.outcome) handler := by
  induction h with
  | entered body => exact ⟨rfl, rfl, rfl⟩
  | @step changes before after old effect id life goes ih =>
      have hnext := ih.step ⟨id, before, after, old, effect.metrics,
        effect.handed.map fun handed => ⟨id, handed.1, handed.2⟩⟩ rfl goes
      have houtcome : effect.handed.toList =
          (effect.handed.map fun handed => (⟨id, handed.1, handed.2⟩ : Handed Value)).toList.map
            Handed.outcome := by
        cases effect.handed <;> rfl
      rw [List.findSome?_append, List.filterMap_append, List.filterMap_append,
        List.findSome?_singleton, filterMap_singleton, filterMap_singleton, List.map_append,
        ← houtcome]
      exact hnext

end Follows

/-! ## Whole runs -/

section Run

variable {codec : Codec Body Value} {db : Db} {labels : List (Happening Body)}
  {state : Ledger Body Value}

/-- The request has done what the call says, and was counted so. -/
structure Returned (state : Ledger Body Value) (id : Nat) (response : Response)
    (call : Call Value) : Prop where
  response : response = responseOf call.rejected
  answers : state.answers id = call.answers
  handed : (state.handed id).map Handed.outcome = call.handed
  ingested : state.added Metrics.eventsIngested id = if call.rejected = none then 1 else 0
  rejected : ∀ reason, state.added (fun metrics => metrics.eventsRejected reason) id =
    if call.rejected = some reason then 1 else 0
  limited : state.added Metrics.rateLimitHits id =
    if call.rejected = some .rateLimit then 1 else 0

/-- A request that is over has done what one call of the handler does, in any run. -/
theorem refines_handleIngest (hrun : (ledger codec).run (Ledger.start db) labels = some state)
    {id : Nat} {handler : Handler Body} {response : Response}
    (hfound : state.gateway.handlers[id]? = some handler)
    (hpoint : handler.point = .finished response) :
    ∃ body answer written, state.received id = some body ∧
      Returned state id response (handleIngest codec answer written body) := by
  have hlife := (recorded_of_run hrun).lives.life id handler hfound
  have hfollows := hlife.follows
  have hingested : state.added Metrics.eventsIngested id =
      ((Account.ingested : Account Body Value).share handler).toNat :=
    hlife.added fun _ _ => rfl
  have hrejected (reason : Reason) :
      state.added (fun metrics => metrics.eventsRejected reason) id =
        ((Account.rejected reason : Account Body Value).share handler).toNat :=
    hlife.added fun _ _ => rfl
  have hlimited : state.added Metrics.rateLimitHits id =
      ((Account.limited : Account Body Value).share handler).toNat :=
    hlife.added fun _ _ => rfl
  obtain ⟨event, point⟩ := handler
  dsimp only at hpoint
  subst hpoint
  obtain ⟨call, ⟨body, answer, written, hreceived, hcall⟩, hresponse, hanswers, hhanded⟩ :
    ∃ call, Called codec (state.received id) call ∧ response = responseOf call.rejected ∧
      state.answers id = call.answers ∧
        (state.handed id).map Handed.outcome = call.handed := hfollows
  subst hcall
  refine ⟨body, answer, written, hreceived, hresponse, hanswers, hhanded, ?_, ?_, ?_⟩
  · rw [hingested]
    simp only [Account.ingested, Handler.ingested, Handler.response?, Option.any_some, hresponse,
      status_responseOf]
    split <;> simp_all
  · intro reason
    rw [hrejected]
    simp only [Account.rejected, Handler.rejectedFor, Handler.response?, hresponse,
      Option.some.injEq, responseOf_eq_iff]
    split <;> simp_all
  · rw [hlimited]
    simp only [Account.limited, Handler.rateLimitHit, Handler.rejectedFor, Handler.response?,
      hresponse, Option.some.injEq, responseOf_eq_iff]
    split <;> simp_all

theorem refines_handleIngest_two_requests :
    ∃ state body answer written,
      (ledger loginCodec).run (Ledger.start fun _ => none) twoRequests = some state ∧
      state.received 0 = some body ∧
      Returned state 0 accepted (handleIngest loginCodec answer written body) := by
  have hrun : (ledger loginCodec).run (Ledger.start fun _ => none) twoRequests = some _ := rfl
  obtain ⟨body, answer, written, hreceived, hreturned⟩ :=
    @refines_handleIngest _ _ _ _ _ _ hrun 0 ⟨loginEvent, .finished accepted⟩ accepted rfl rfl
  exact ⟨_, body, answer, written, hrun, hreceived, hreturned⟩

end Run

end NexPulse.Ingest
