import NexPulse.Foundation.Transition
import NexPulse.Ingest.Accounting
import Mathlib.Algebra.BigOperators.Group.Finset.Basic
import Mathlib.Data.Fintype.Defs

/-!
# What becomes of a request

The ledger keeps, beside the gateway, the history of the steps its handlers have
taken, and lets other clients of Redis change the database at any time.  The
steps of one request form its life; what a request has added to the metrics,
what the limiter answered it and what it handed to the writer are read off it.
-/

namespace NexPulse.Ingest

open NexPulse.Foundation NexPulse.Foundation.Redis NexPulse.RateLimit

instance : Fintype Reason where
  elems := {.badRequest, .missingUserId, .rateLimit, .kafkaError}
  complete reason := by cases reason <;> decide

structure Change (Body Value : Type*) where
  id : Nat
  before : Handler Body
  after : Handler Body
  old : Metrics
  new : Metrics
  handed : Option (Handed Value)

structure Ledger (Body Value : Type*) where
  gateway : Gateway Body
  db : Db
  history : List (Change Body Value)

inductive Happening (Body : Type*) where
  | move (move : Move Body)
  -- Other clients of Redis leave this database.
  | others (db : Db)

variable {Body Value : Type*}

/-- What AllowRequest has returned to a handler that goes on from it. -/
def answer? (before after : Point Body) : Option (Except Error Bool) :=
  match before, after with
  | .limiting .., .limiting .. => none
  | .limiting _ _ replies, _ =>
      some (if replies.length < 4 then .error .connection else verdict limit replies)
  | _, _ => none

def Change.answer? (change : Change Body Value) : Option (Except Error Bool) :=
  Ingest.answer? change.before.point change.after.point

def addedBy (read : Metrics → Nat) (changes : List (Change Body Value)) : Int :=
  (changes.map fun change => (read change.new - read change.old : Int)).sum

/-- From the first statement of the handler, which raises the gauge, to the one that lowers it. -/
def Handler.inProgress (handler : Handler Body) : Bool :=
  match handler.point with
  | .entered _ | .finished _ => false
  | _ => true

namespace Ledger

def start (db : Db) : Ledger Body Value := ⟨.init, db, []⟩

def change? (ledger : Ledger Body Value) (moved : Moved Body Value) (id : Nat) :
    Option (Change Body Value) :=
  ledger.gateway.handlers[id]?.bind fun before =>
    moved.gateway.handlers[id]?.map fun after =>
      ⟨id, before, after, ledger.gateway.metrics, moved.gateway.metrics, moved.handed⟩

def record (ledger : Ledger Body Value) (mover : Option Nat) (moved : Moved Body Value) :
    Ledger Body Value where
  gateway := moved.gateway
  db := moved.db
  history := ledger.history ++ (mover.bind (ledger.change? moved)).toList

def changesOf (ledger : Ledger Body Value) (id : Nat) : List (Change Body Value) :=
  ledger.history.filter fun change => change.id = id

def added (ledger : Ledger Body Value) (read : Metrics → Nat) (id : Nat) : Int :=
  addedBy read (ledger.changesOf id)

def answers (ledger : Ledger Body Value) (id : Nat) : List (Except Error Bool) :=
  (ledger.changesOf id).filterMap Change.answer?

def handed (ledger : Ledger Body Value) (id : Nat) : List (Handed Value) :=
  (ledger.changesOf id).filterMap Change.handed

end Ledger

def ledger (codec : Codec Body Value) : System (Ledger Body Value) (Happening Body) where
  step state
    | .move move => (state.gateway.move codec state.db move).map (state.record move.mover)
    | .others db => some { state with db := db }

structure Consistent (state : Ledger Body Value) : Prop where
  active : state.gateway.metrics.activeConnections =
    state.gateway.handlers.countP Handler.inProgress
  finished : ∀ id handler response, state.gateway.handlers[id]? = some handler →
    handler.point = .finished response →
    state.added Metrics.eventsIngested id +
        ∑ reason, state.added (fun metrics => metrics.eventsRejected reason) id = 1 ∧
      (state.added Metrics.eventsIngested id = 1 ↔ response.status = 202)
  limited : (∀ handler ∈ state.gateway.handlers, handler.inProgress = false) →
    state.gateway.metrics.rateLimitHits = state.gateway.metrics.eventsRejected .rateLimit
  handedOnce : ∀ id, (state.handed id).length ≤ 1
  handedValid : ∀ id, ∀ handed ∈ state.handed id, ∃ handler,
    state.gateway.handlers[id]? = some handler ∧
      handler.event.string? "user_id" = some handed.message.key ∧ handed.message.key ≠ ""
  handedAllowed : ∀ id, ∀ handed ∈ state.handed id, ∃ answer,
    state.answers id = [answer] ∧ answer ≠ .ok false
  noPanic : ∀ handler ∈ state.gateway.handlers, handler.point = .producing →
    handler.event.string? "user_id" ≠ none

/-! ## The accounts of the metrics -/

namespace Handler

def rateLimitHit (handler : Handler Body) : Bool :=
  match handler.point with
  | .rejecting reason => reason = .rateLimit
  | _ => handler.rejectedFor .rateLimit

end Handler

namespace Account

def active : Account Body Value where
  read metrics _ := metrics.activeConnections
  share := Handler.inProgress
  entered _ _ := rfl
  goes pings h := by
    cases h with
    | write message written => cases written <;> simp [Handler.inProgress]
    | _ => simp [Handler.inProgress, Effect.only]

def limited : Account Body Value where
  read metrics _ := metrics.rateLimitHits
  share := Handler.rateLimitHit
  entered _ _ := rfl
  goes pings h := by
    cases h with
    | write message written =>
        cases written <;> simp [Handler.rateLimitHit, Handler.rejectedFor, Handler.response?]
    | reject counted =>
        cases counted <;>
          simp [Handler.rateLimitHit, Handler.rejectedFor, Handler.response?, Effect.only,
            Reason.response]
    | _ =>
        simp [Handler.rateLimitHit, Handler.rejectedFor, Handler.response?, Effect.only,
          Reason.response, accepted, recovered]

end Account

/-! ## The life of a request -/

inductive Life (codec : Codec Body Value) : List (Change Body Value) → Handler Body → Prop where
  | entered (body : Body) : Life codec [] ⟨.empty, .entered body⟩
  | step {changes : List (Change Body Value)} {before after : Handler Body} {old : Metrics}
      {effect : Effect Value} (id : Nat) (life : Life codec changes before)
      (goes : Goes codec before.event old before.point after effect) :
      Life codec (changes ++ [⟨id, before, after, old, effect.metrics,
        effect.handed.map fun handed => ⟨id, handed.1, handed.2⟩⟩]) after

section Life

variable {codec : Codec Body Value} {changes : List (Change Body Value)} {handler : Handler Body}

theorem Life.added {account : Account Body Value} {read : Metrics → Nat}
    (hread : ∀ metrics pings, account.read metrics pings = read metrics)
    (h : Life codec changes handler) : addedBy read changes = (account.share handler).toNat := by
  induction h with
  | entered body => simp [addedBy, account.entered]
  | @step changes before after old effect id life goes ih =>
      have hshare : account.read effect.metrics (0 + effect.pinged.toNat) +
          (account.share before).toNat = account.read old 0 + (account.share after).toNat :=
        account.goes 0 goes
      simp only [hread] at hshare
      simp only [addedBy, List.map_append, List.map_singleton, List.sum_append,
        List.sum_singleton] at ih ⊢
      rw [ih]
      omega

def LetThrough (answers : List (Except Error Bool)) : Prop :=
  ∃ answer, answers = [answer] ∧ answer ≠ .ok false

def HandedOnce (answers : List (Except Error Bool)) (messages : List (Handed Value))
    (event : Event) : Prop :=
  LetThrough answers ∧ ∃ handed, messages = [handed] ∧
    event.string? "user_id" = some handed.message.key ∧ handed.message.key ≠ ""

def HandedAtMostOnce (answers : List (Except Error Bool)) (messages : List (Handed Value))
    (event : Event) : Prop :=
  messages = [] ∨ HandedOnce answers messages event

def Come (answers : List (Except Error Bool)) (messages : List (Handed Value))
    (handler : Handler Body) : Prop :=
  match handler.point with
  | .entered _ | .binding _ | .checking => answers = [] ∧ messages = []
  | .pinging _ | .readingClock _ | .limiting .. =>
      answers = [] ∧ messages = [] ∧ HasUser handler.event
  | .limited => messages = []
  | .producing => messages = [] ∧ LetThrough answers ∧ HasUser handler.event
  | .counting => HandedOnce answers messages handler.event
  | .rejecting _ => HandedAtMostOnce answers messages handler.event
  | .responding response | .leaving response | .finished response =>
      HandedAtMostOnce answers messages handler.event ∧
        (response = accepted ∨ ∃ reason, response = Reason.response reason)

theorem Come.handedAtMostOnce {answers : List (Except Error Bool)} {messages : List (Handed Value)}
    (h : Come answers messages handler) : HandedAtMostOnce answers messages handler.event := by
  obtain ⟨event, point⟩ := handler
  cases point with
  | entered | binding | checking => exact .inl h.2
  | pinging | readingClock | limiting => exact .inl h.2.1
  | limited => exact .inl h
  | producing => exact .inl h.1
  | counting => exact .inr h
  | rejecting => exact h
  | responding | leaving | finished => exact h.1

theorem Come.step {answers : List (Except Error Bool)} {messages : List (Handed Value)}
    {before after : Handler Body} {old : Metrics} {effect : Effect Value} (id : Nat)
    (h : Come answers messages before)
    (goes : Goes codec before.event old before.point after effect) :
    Come (answers ++ (answer? before.point after.point).toList)
      (messages ++ (effect.handed.map fun handed => ⟨id, handed.1, handed.2⟩).toList) after := by
  obtain ⟨event, point⟩ := before
  dsimp only at goes
  cases goes with
  | enter | bind | ping | readClock | reply | respond | leave =>
      simpa [Come, answer?, Effect.only] using h
  | valid userID found nonempty =>
      obtain ⟨hanswers, hmessages⟩ : answers = [] ∧ messages = [] := h
      simp [Come, answer?, Effect.only, hanswers, hmessages, HasUser, found, nonempty]
  | bindError | missing =>
      obtain ⟨-, hmessages⟩ : answers = [] ∧ messages = [] := h
      simp [Come, HandedAtMostOnce, Effect.only, hmessages]
  | limiterDown userID now replies command asked =>
      have unfinished : replies.length < 4 := (List.getElem?_eq_some_iff.mp asked).1
      obtain ⟨hanswers, hmessages, huser⟩ : answers = [] ∧ messages = [] ∧ HasUser event := h
      simp [Come, answer?, hanswers, hmessages, huser, LetThrough, unfinished]
  | limiterOpen userID now replies finished allowed =>
      obtain ⟨hanswers, hmessages, huser⟩ : answers = [] ∧ messages = [] ∧ HasUser event := h
      simp [Come, answer?, Effect.only, hanswers, hmessages, huser, LetThrough,
        Nat.not_lt.mpr finished, allowed]
  | limiterDenied userID now replies finished denied =>
      obtain ⟨-, hmessages, -⟩ : answers = [] ∧ messages = [] ∧ HasUser event := h
      simp [Come, Effect.only, hmessages]
  | limited =>
      have hmessages : messages = [] := h
      simp [Come, HandedAtMostOnce, Effect.only, hmessages]
  | marshalError =>
      obtain ⟨hmessages, -⟩ : messages = [] ∧ LetThrough answers ∧ HasUser event := h
      simp [Come, HandedAtMostOnce, Effect.only, hmessages]
  | panic missing =>
      obtain ⟨-, -, userID, huser, -⟩ : messages = [] ∧ LetThrough answers ∧ HasUser event := h
      rw [missing] at huser
      contradiction
  | write message written key marshalled =>
      obtain ⟨hmessages, hthrough, userID, huser, hnonempty⟩ :
        messages = [] ∧ LetThrough answers ∧ HasUser event := h
      obtain rfl : message.key = userID := Option.some.inj (key.symm.trans huser)
      have honce : HandedOnce answers [⟨id, message, written⟩] event :=
        ⟨hthrough, _, rfl, key, hnonempty⟩
      cases written with
      | true => simpa [Come, answer?, hmessages] using honce
      | false =>
          have hatMost : HandedAtMostOnce answers [⟨id, message, false⟩] event := .inr honce
          simpa [Come, answer?, hmessages] using hatMost
  | count =>
      have hatMost : HandedAtMostOnce answers messages event := .inr h
      simpa [Come, answer?, Effect.only] using hatMost
  | reject reason =>
      have hatMost : HandedAtMostOnce answers messages event := h
      have hreason : Reason.response reason = accepted ∨
          ∃ other, Reason.response reason = Reason.response other := .inr ⟨reason, rfl⟩
      simpa [Come, answer?, Effect.only] using And.intro hatMost hreason

theorem filterMap_singleton {Entry Kept : Type*} (f : Entry → Option Kept) (entry : Entry) :
    [entry].filterMap f = (f entry).toList := by
  cases hkept : f entry <;> simp [hkept]

theorem Life.come (h : Life codec changes handler) :
    Come (changes.filterMap Change.answer?) (changes.filterMap Change.handed) handler := by
  induction h with
  | entered body => exact ⟨rfl, rfl⟩
  | @step changes before after old effect id life goes ih =>
      simpa [List.filterMap_append, filterMap_singleton, Change.answer?] using ih.step id goes

end Life

structure Lives (codec : Codec Body Value) (handlers : List (Handler Body))
    (history : List (Change Body Value)) : Prop where
  life : ∀ id handler, handlers[id]? = some handler →
    Life codec (history.filter fun change => change.id = id) handler
  known : ∀ change ∈ history, change.id < handlers.length

section Lives

variable {codec : Codec Body Value} {handlers : List (Handler Body)}
  {history : List (Change Body Value)}

theorem Lives.request (h : Lives codec handlers history) (body : Body) :
    Lives codec (handlers ++ [⟨.empty, .entered body⟩]) history := by
  refine ⟨fun id handler hfound => ?_, fun change hmem => ?_⟩
  · rw [List.getElem?_append] at hfound
    split at hfound
    · exact h.life id handler hfound
    · next hunused =>
        have hnone : (history.filter fun change => change.id = id) = [] := by
          refine List.filter_eq_nil_iff.mpr fun change hmem => ?_
          have hlt := h.known change hmem
          simp only [decide_eq_true_eq]
          omega
        obtain rfl := List.mem_singleton.mp (List.mem_of_getElem? hfound)
        rw [hnone]
        exact .entered body
  · rw [List.length_append]
    exact Nat.lt_add_right _ (h.known change hmem)

theorem Lives.step (h : Lives codec handlers history) {id : Nat} {before after : Handler Body}
    {old : Metrics} {effect : Effect Value} (hfound : handlers[id]? = some before)
    (hgoes : Goes codec before.event old before.point after effect) :
    Lives codec (handlers.set id after) (history ++ [⟨id, before, after, old, effect.metrics,
      effect.handed.map fun handed => ⟨id, handed.1, handed.2⟩⟩]) := by
  have hlt := (List.getElem?_eq_some_iff.mp hfound).1
  refine ⟨fun other handler hother => ?_, fun change hmem => ?_⟩
  · by_cases hself : other = id
    · subst hself
      rw [List.getElem?_set_self hlt] at hother
      obtain rfl := Option.some.inj hother
      simpa using (h.life other before hfound).step other hgoes
    · rw [List.getElem?_set_ne (Ne.symm hself)] at hother
      simpa [Ne.symm hself] using h.life other handler hother
  · rw [List.length_set]
    rcases List.mem_append.mp hmem with hold | hnew
    · exact h.known change hold
    · obtain rfl := List.mem_singleton.mp hnew
      exact hlt

end Lives

/-! ## Whole runs -/

section Run

variable {codec : Codec Body Value} {db : Db} {labels : List (Happening Body)}
  {state next : Ledger Body Value}

structure Recorded (codec : Codec Body Value) (state : Ledger Body Value) : Prop where
  active : (Account.active : Account Body Value).Balanced state.gateway
  rejected : ∀ reason, (Account.rejected reason : Account Body Value).Balanced state.gateway
  limited : (Account.limited : Account Body Value).Balanced state.gateway
  lives : Lives codec state.gateway.handlers state.history

theorem Recorded.record {mover : Option Nat} {moved : Moved Body Value}
    (h : Recorded codec state) (hturn : Turns codec state.gateway state.db mover moved) :
    Recorded codec (state.record mover moved) := by
  refine ⟨h.active.turn hturn, fun reason => (h.rejected reason).turn hturn,
    h.limited.turn hturn, ?_⟩
  cases hturn with
  | request body => simpa [Ledger.record] using h.lives.request body
  | handler id before after effect next hfound hgoes =>
      have hlt := (List.getElem?_eq_some_iff.mp hfound).1
      simpa [Ledger.record, Ledger.change?, hfound, List.getElem?_set_self hlt] using
        h.lives.step hfound hgoes

theorem recorded_of_run (hrun : (ledger codec).run (Ledger.start db) labels = some state) :
    Recorded codec state := by
  refine (ledger codec).run_invariant (I := Recorded codec) ?_ ?_ hrun
  · refine ⟨rfl, fun _ => rfl, rfl, fun id handler h => ?_, fun change hmem => ?_⟩
    · simp [Ledger.start, Gateway.init] at h
    · exact absurd hmem List.not_mem_nil
  · intro state happening next h hstep
    cases happening with
    | move move =>
        obtain ⟨moved, hmove, rfl⟩ := Option.map_eq_some_iff.mp hstep
        exact h.record (Gateway.turns_of_move hmove)
    | others db =>
        obtain rfl := Option.some.inj hstep
        exact ⟨h.active, h.rejected, h.limited, h.lives⟩

theorem Recorded.come (h : Recorded codec state) {id : Nat} {handler : Handler Body}
    (hfound : state.gateway.handlers[id]? = some handler) :
    Come (state.answers id) (state.handed id) handler :=
  (h.lives.life id handler hfound).come

theorem Recorded.handed_cases (h : Recorded codec state) (id : Nat) :
    state.handed id = [] ∨ ∃ handler, state.gateway.handlers[id]? = some handler ∧
      HandedOnce (state.answers id) (state.handed id) handler.event := by
  cases hfound : state.gateway.handlers[id]? with
  | none =>
      have hnone : state.changesOf id = [] := by
        refine List.filter_eq_nil_iff.mpr fun change hmem => ?_
        have hlt := h.lives.known change hmem
        have hle := List.getElem?_eq_none_iff.mp hfound
        simp only [decide_eq_true_eq]
        omega
      exact .inl (by rw [Ledger.handed, hnone]; rfl)
  | some handler =>
      exact (h.come hfound).handedAtMostOnce.imp_right fun honce => ⟨handler, rfl, honce⟩

theorem counted_once {response : Response}
    (h : response = accepted ∨ ∃ reason, response = Reason.response reason) :
    ((decide (response.status = 202)).toNat : Int) +
        ∑ reason, ((decide (some response = some (Reason.response reason))).toNat : Int) = 1 ∧
      (((decide (response.status = 202)).toNat : Int) = 1 ↔ response.status = 202) := by
  rcases h with rfl | ⟨reason, rfl⟩
  · decide
  · cases reason <;> decide

theorem Recorded.finished (h : Recorded codec state) {id : Nat} {handler : Handler Body}
    {response : Response} (hfound : state.gateway.handlers[id]? = some handler)
    (hpoint : handler.point = .finished response) :
    state.added Metrics.eventsIngested id +
        ∑ reason, state.added (fun metrics => metrics.eventsRejected reason) id = 1 ∧
      (state.added Metrics.eventsIngested id = 1 ↔ response.status = 202) := by
  have hlife := h.lives.life id handler hfound
  have hingested : state.added Metrics.eventsIngested id =
      ((Account.ingested : Account Body Value).share handler).toNat :=
    hlife.added fun _ _ => rfl
  have hrejected (reason : Reason) :
      state.added (fun metrics => metrics.eventsRejected reason) id =
        ((Account.rejected reason : Account Body Value).share handler).toNat :=
    hlife.added fun _ _ => rfl
  have hanswered := h.come hfound
  obtain ⟨event, point⟩ := handler
  dsimp only at hpoint
  subst hpoint
  simp only [hingested, hrejected]
  exact counted_once hanswered.2

theorem Recorded.limited_eq (h : Recorded codec state)
    (hidle : ∀ handler ∈ state.gateway.handlers, handler.inProgress = false) :
    state.gateway.metrics.rateLimitHits = state.gateway.metrics.eventsRejected .rateLimit := by
  have hsame : state.gateway.handlers.countP Handler.rateLimitHit =
      state.gateway.handlers.countP (Handler.rejectedFor .rateLimit) := by
    refine List.countP_congr fun handler hmem => ?_
    obtain ⟨event, point⟩ := handler
    have hpoint := hidle _ hmem
    cases point with
    | entered | finished => rfl
    | _ => contradiction
  have hhits : (state.gateway.metrics.rateLimitHits : Int) = _ := h.limited
  have hrejected : (state.gateway.metrics.eventsRejected .rateLimit : Int) = _ :=
    h.rejected .rateLimit
  dsimp only [Account.limited, Account.rejected] at hhits hrejected
  omega

/-- In every reachable state the metrics, the responses and the messages of the requests agree. -/
theorem outcomes_consistent (hrun : (ledger codec).run (Ledger.start db) labels = some state) :
    Consistent state := by
  have h := recorded_of_run hrun
  constructor
  · exact h.active
  · exact fun id handler response hfound hpoint => h.finished hfound hpoint
  · exact h.limited_eq
  · intro id
    rcases h.handed_cases id with hnone | ⟨handler, -, -, handed, hone, -⟩
    · simp [hnone]
    · simp [hone]
  · intro id handed hmem
    rcases h.handed_cases id with hnone | ⟨handler, hfound, -, only, hone, hkey, hnonempty⟩
    · simp [hnone] at hmem
    · rw [hone] at hmem
      obtain rfl := List.mem_singleton.mp hmem
      exact ⟨handler, hfound, hkey, hnonempty⟩
  · intro id handed hmem
    rcases h.handed_cases id with hnone | ⟨handler, -, hthrough, -⟩
    · simp [hnone] at hmem
    · exact hthrough
  · intro handler hmem hpoint
    obtain ⟨id, hfound⟩ := List.mem_iff_getElem?.mp hmem
    have hcome := h.come hfound
    rw [Come, hpoint] at hcome
    obtain ⟨-, -, userID, huser, -⟩ := hcome
    simp [huser]

def twoRequests : List (Happening String) :=
  [.request loginBody, .request "login", .compute 0, .compute 0, .compute 0, .compute 0, .compute 1,
    .compute 1, .readClock 0 5, .redis 0 5 .replied, .redis 0 5 .notExecuted, .write 0 true,
    .compute 1, .compute 0, .compute 0, .compute 0].map .move

theorem outcomes_consistent_two_requests :
    ∃ state, (ledger loginCodec).run (Ledger.start fun _ => none) twoRequests = some state ∧
      state.gateway.metrics.activeConnections = state.gateway.handlers.countP Handler.inProgress ∧
      state.added Metrics.eventsIngested 0 = 1 ∧ state.answers 0 = [.error .connection] := by
  have hrun : (ledger loginCodec).run (Ledger.start fun _ => none) twoRequests = some _ := rfl
  have hconsistent := outcomes_consistent hrun
  have hfinished := hconsistent.finished 0 _ accepted rfl rfl
  exact ⟨_, hrun, hconsistent.active, hfinished.2.mpr rfl, rfl⟩

end Run

end NexPulse.Ingest
