import NexPulse.Foundation.Transition
import NexPulse.Ingest.Accounting
import NexPulse.Aggregate.Tally

/-!
# From the gateway to the leaderboard

The gateway and the aggregator share one Redis database and are joined by the
raw-events topic.  Handlers, deliveries, actions of the aggregator and key
expiry interleave in any order; Kafka delivers each written message once, in
any order, and Redis answers every command of the aggregator.
-/

namespace NexPulse.EndToEnd

open NexPulse.Foundation NexPulse.Foundation.Redis NexPulse.RateLimit NexPulse.Ingest
  NexPulse.Aggregate

structure Platform (Body Value : Type*) where
  gateway : Gateway Body
  db : Db
  handed : List (Message Value)
  undelivered : List (Message Value)
  loop : Loop Value

inductive Turn (Body : Type*) where
  | gateway (move : Move Body)
  | deliver (index : Nat)
  | aggregate
  | expire (clock : Int)

variable {Body Value : Type*}

def Platform.start (db : Db) : Platform Body Value := ⟨.init, db, [], [], .init⟩

def platform (codec : Codec Body Value) : System (Platform Body Value) (Turn Body) where
  step state
    | .gateway move =>
        (state.gateway.move codec state.db move).map fun moved =>
          { state with
            gateway := moved.gateway
            db := moved.db
            handed := state.handed ++ moved.written
            undelivered := state.undelivered ++ moved.written }
    | .deliver index =>
        match state.loop.point, state.undelivered[index]? with
        | .head, some message =>
            some { state with
              undelivered := state.undelivered.eraseIdx index
              loop := { state.loop with point := .consumed message } }
        | _, _ => none
    | .aggregate =>
        (state.loop.work codec .replied state.db).map fun result =>
          { state with loop := result.1, db := result.2 }
    | .expire clock => some { state with db := state.db.purge clock }

/-! ## What is counted -/

/-- The iteration under way has a message of the user and has not raised its score. -/
def unprocessed (codec : Codec Body Value) (loop : Loop Value) (userID : String) : Nat :=
  match loop.point.message? with
  | some message =>
      if message.key = userID ∧
          ⟨leaderboardKey, .zIncrBy 1 userID⟩ ∈ loop.point.pending codec then 1 else 0
  | none => 0

/-- The handler answers 202 to an event whose field `key` is the string `text`. -/
def answered202 (key text : String) (handler : Handler Body) : Bool :=
  (handler.response?.any fun response => response.status = 202) &&
    (handler.event.string? key = some text)

structure Platform.Quiet (state : Platform Body Value) : Prop where
  handlers : ∀ handler ∈ state.gateway.handlers, ∃ response, handler.point = .finished response
  undelivered : state.undelivered = []
  loop : state.loop.point = .head

/-! ## The invariant -/

structure Conserved (codec : Codec Body Value) (initial : Db) (state : Platform Body Value) :
    Prop where
  typed : Typed state.db
  accounted : state.gateway.Accounted codec
  published : (state.handed.map fun message => codec.unmarshal message.value).Perm
    ((state.gateway.handlers.filterMap Handler.published?).map some)
  keyed : ∀ message ∈ state.handed, ∃ event, codec.unmarshal message.value = some event ∧
    event.string? "user_id" = some message.key
  inFlight : ∀ message ∈ state.undelivered, message ∈ state.handed
  current : ∀ message, state.loop.point.message? = some message →
    message ∈ state.handed ∧ state.loop.point.pending codec <:+ updatesOf codec message
  balance : ∀ tally : Tally,
    tally.read state.db + tally.sum (state.loop.point.pending codec) +
        tally.sum (state.undelivered.flatMap (updatesOf codec)) =
      tally.read initial + tally.sum (state.handed.flatMap (updatesOf codec))

section Step

variable {codec : Codec Body Value} {initial : Db} {state next : Platform Body Value}

theorem conserved_start (htyped : Typed initial) :
    Conserved codec initial (Platform.start initial : Platform Body Value) where
  typed := htyped
  accounted := Gateway.accounted_init
  published := .nil
  keyed message hmem := absurd hmem List.not_mem_nil
  inFlight message hmem := hmem
  current message hmessage := nomatch hmessage
  balance tally := by simp [Platform.start, Loop.init, Point.pending]

theorem limiterOnly_aggregate {db after : Db} (h : LimiterOnly db after) {key : String}
    (hkey : AggregateKey key) : after key = db key := by
  rcases h with rfl | ⟨command, clock, outcome, userID, hcommand, rfl⟩
  · rfl
  · refine Command.attempt_other fun heq => userKey_not_aggregate userID ?_
    rwa [← hcommand, ← heq]

theorem Conserved.database {after : Db} (h : Conserved codec initial state)
    (hsame : ∀ key, AggregateKey key → after key = state.db key) :
    Conserved codec initial { state with db := after } where
  typed := h.typed.congr hsame
  accounted := h.accounted
  published := h.published
  keyed := h.keyed
  inFlight := h.inFlight
  current := h.current
  balance tally := by rw [tally.read_congr hsame, h.balance tally]

theorem Conserved.move {mover : Option Nat} {moved : Moved Body Value}
    (hcodec : codec.RoundTrip) (h : Conserved codec initial state)
    (hturn : Turns codec state.gateway state.db mover moved) :
    Conserved codec initial { state with
      gateway := moved.gateway
      db := moved.db
      handed := state.handed ++ moved.written
      undelivered := state.undelivered ++ moved.written } := by
  have hdb := h.database fun key hkey => limiterOnly_aggregate (limiterOnly_of_turn hturn) hkey
  constructor
  · exact hdb.typed
  · exact h.accounted.turn hturn
  · rw [List.map_append]
    exact (h.published.append_right _).trans (published_turn hcodec h.accounted hturn).symm
  · intro message hmem
    rcases List.mem_append.mp hmem with hold | hnew
    · exact h.keyed message hold
    · obtain ⟨event, hdecoded, hkey, -⟩ := written_encodes hcodec h.accounted hturn hnew
      exact ⟨event, hdecoded, hkey⟩
  · intro message hmem
    rcases List.mem_append.mp hmem with hold | hnew
    · exact List.mem_append_left _ (h.inFlight message hold)
    · exact List.mem_append_right _ hnew
  · exact fun message hcurrent =>
      ⟨List.mem_append_left _ (h.current message hcurrent).1, (h.current message hcurrent).2⟩
  · intro tally
    simp only [List.flatMap_append, Tally.sum_append, ← add_assoc]
    rw [hdb.balance tally]

theorem Conserved.deliver {index : Nat} {message : Message Value}
    (h : Conserved codec initial state) (hhead : state.loop.point = .head)
    (hfound : state.undelivered[index]? = some message) :
    Conserved codec initial { state with
      undelivered := state.undelivered.eraseIdx index
      loop := { state.loop with point := .consumed message } } where
  typed := h.typed
  accounted := h.accounted
  published := h.published
  keyed := h.keyed
  inFlight other hmem := h.inFlight other (List.mem_of_mem_eraseIdx hmem)
  current other hcurrent := by
    obtain rfl : message = other := Option.some.inj hcurrent
    exact ⟨h.inFlight message (List.mem_of_getElem? hfound), List.suffix_refl _⟩
  balance tally := by
    obtain ⟨hlt, rfl⟩ := List.getElem?_eq_some_iff.mp hfound
    have hperm := (List.getElem_cons_eraseIdx_perm hlt).flatMap_right (updatesOf codec)
    rw [← h.balance tally, ← tally.sum_perm hperm, hhead, List.flatMap_cons, tally.sum_append]
    simp only [Point.pending, Tally.sum_nil]
    ring

theorem Conserved.update_of_pending {command : Command} (h : Conserved codec initial state)
    (hpending : command ∈ state.loop.point.pending codec) : Update command := by
  cases hmessage : state.loop.point.message? with
  | none => cases hpoint : state.loop.point <;> simp_all [Point.message?, Point.pending]
  | some message =>
      exact update_of_mem_updatesOf ((h.current message hmessage).2.subset hpending)

theorem Conserved.aggregate {loop : Loop Value} {after : Db} (h : Conserved codec initial state)
    (hworked : Worked codec .replied state.loop loop state.db after) :
    Conserved codec initial { state with loop := loop, db := after } := by
  have hkept := hworked.kept (Point.kept_replied _)
  have hupdates : ∀ command ∈ state.loop.point.executes .replied, Update command :=
    fun command hmem => h.update_of_pending (hkept ▸ List.mem_append_left _ hmem)
  have hexec (tally : Tally) := tally.read_execAll h.typed hupdates
  simp only [← hworked.db_eq] at hexec
  refine ⟨(hexec Tally.totalScore).1, h.accounted, h.published, h.keyed, h.inFlight, ?_, ?_⟩
  · intro message hmessage
    obtain ⟨hhanded, hsuffix⟩ := h.current message (hworked.message message hmessage)
    exact ⟨hhanded, .trans ⟨_, hkept⟩ hsuffix⟩
  · intro tally
    have hbalance := h.balance tally
    rw [← hkept, tally.sum_append] at hbalance
    rw [(hexec tally).2, ← hbalance]
    ring

theorem Conserved.step {turn : Turn Body} (hcodec : codec.RoundTrip)
    (h : Conserved codec initial state) (hstep : (platform codec).step state turn = some next) :
    Conserved codec initial next := by
  cases turn with
  | gateway move =>
      obtain ⟨moved, hmove, rfl⟩ := Option.map_eq_some_iff.mp hstep
      exact h.move hcodec (Gateway.turns_of_move hmove)
  | deliver index =>
      simp only [platform] at hstep
      split at hstep
      · next message hhead hfound =>
          obtain rfl := Option.some.inj hstep
          exact h.deliver hhead hfound
      · contradiction
  | aggregate =>
      obtain ⟨⟨loop, after⟩, hwork, rfl⟩ := Option.map_eq_some_iff.mp hstep
      exact h.aggregate (Loop.work_spec hwork)
  | expire clock =>
      obtain rfl := Option.some.inj hstep
      exact h.database fun key hkey => purge_of_persistent clock (h.typed.persistent key hkey)

end Step

/-! ## Messages of one user -/

section Users

variable {codec : Codec Body Value} {initial : Db} {state : Platform Body Value}

theorem userScore_messages {messages : List (Message Value)} (userID : String)
    (hkeyed : ∀ message ∈ messages, ∃ event, codec.unmarshal message.value = some event ∧
      event.string? "user_id" = some message.key) :
    (Tally.userScore userID).sum (messages.flatMap (updatesOf codec)) =
      messages.countP fun message => message.key = userID := by
  induction messages with
  | nil => rfl
  | cons message messages ih =>
      obtain ⟨hfirst, hrest⟩ := List.forall_mem_cons.mp hkeyed
      obtain ⟨event, hdecoded, hkey⟩ := hfirst
      rw [List.flatMap_cons, Tally.sum_append, ih hrest, updatesOf, hdecoded,
        Tally.userScore_updates, hkey, List.countP_cons]
      by_cases hself : message.key = userID <;> simp [hself, add_comm]

theorem Conserved.unprocessed_eq (h : Conserved codec initial state) (userID : String) :
    (Tally.userScore userID).sum (state.loop.point.pending codec) =
      unprocessed codec state.loop userID := by
  rw [Tally.userScore_sum_eq_count, unprocessed]
  cases hmessage : state.loop.point.message? with
  | none => cases hpoint : state.loop.point <;> simp_all [Point.message?, Point.pending]
  | some message =>
      obtain ⟨hhanded, hsuffix⟩ := h.current message hmessage
      have hone := userScore_messages userID fun other hother =>
        h.keyed other (List.mem_singleton.mp hother ▸ hhanded)
      rw [List.flatMap_singleton, Tally.userScore_sum_eq_count, List.countP_singleton] at hone
      have hle := hsuffix.sublist.count_le
        (⟨leaderboardKey, .zIncrBy 1 userID⟩ : Command)
      by_cases hpending : ⟨leaderboardKey, .zIncrBy 1 userID⟩ ∈ state.loop.point.pending codec
      · have hpos := List.count_pos_iff.mpr hpending
        by_cases hkey : message.key = userID
        · simp only [hkey, hpending, decide_true, if_true, and_self] at hone ⊢
          omega
        · simp only [hkey, decide_false, Bool.false_eq_true, if_false] at hone
          omega
      · simp [hpending, List.count_eq_zero_of_not_mem hpending]

theorem Conserved.score_eq (h : Conserved codec initial state)
    (hleaderboard : initial leaderboardKey = none) (userID : String) :
    (state.handed.countP (fun message => message.key = userID) : Int) =
      (Tally.userScore userID).read state.db + unprocessed codec state.loop userID +
        state.undelivered.countP fun message => message.key = userID := by
  have hbalance := h.balance (Tally.userScore userID)
  rw [h.unprocessed_eq, userScore_messages userID h.keyed,
    userScore_messages userID fun message hmem => h.keyed message (h.inFlight message hmem)]
    at hbalance
  have hzero : (Tally.userScore userID).read initial = 0 := by
    simp [Tally.userScore, hleaderboard]
  omega

end Users

/-! ## At rest -/

section Quiet

variable {codec : Codec Body Value} {initial : Db} {state : Platform Body Value}

theorem Conserved.read_quiet (h : Conserved codec initial state) (hquiet : state.Quiet)
    (tally : Tally) :
    tally.read state.db = tally.read initial +
      tally.sum ((state.gateway.handlers.filterMap Handler.published?).flatMap updates) := by
  have hbalance := h.balance tally
  have hmessages : state.handed.flatMap (updatesOf codec) =
      (state.handed.map fun message => codec.unmarshal message.value).flatMap
        fun event? => event?.toList.flatMap updates := by
    rw [List.flatMap_map]
    refine List.flatMap_congr fun message _ => ?_
    unfold updatesOf
    cases codec.unmarshal message.value <;> simp
  have hperm := h.published.flatMap_right fun event? : Option Event => event?.toList.flatMap updates
  rw [← hmessages, List.flatMap_map] at hperm
  rw [hquiet.loop, hquiet.undelivered, tally.sum_perm hperm] at hbalance
  simpa [Point.pending] using hbalance

theorem countP_published_quiet (hquiet : state.Quiet) (key text : String) :
    (state.gateway.handlers.filterMap Handler.published?).countP
        (fun event => event.string? key = some text) =
      state.gateway.handlers.countP (answered202 key text) := by
  rw [List.countP_filterMap]
  refine List.countP_congr fun handler hmem => ?_
  obtain ⟨response, hpoint⟩ := hquiet.handlers handler hmem
  by_cases hstatus : response.status = 202 <;>
    simp [answered202, Handler.response?, Handler.published?, hpoint, hstatus]

theorem Conserved.total_quiet (h : Conserved codec initial state) (hquiet : state.Quiet) :
    ((state.gateway.handlers.filterMap Handler.published?).countP
        fun event => (event.string? "user_id").isSome) =
      state.gateway.metrics.eventsIngested := by
  have hall : ∀ event ∈ state.gateway.handlers.filterMap Handler.published?,
      (event.string? "user_id").isSome = true := by
    intro event hmem
    have hhanded := h.published.mem_iff.mpr (List.mem_map_of_mem hmem)
    obtain ⟨message, hmessage, hdecoded⟩ := List.mem_map.mp hhanded
    obtain ⟨other, hother, hkey⟩ := h.keyed message hmessage
    obtain rfl := Option.some.inj (hother.symm.trans hdecoded)
    simp [hkey]
  rw [List.countP_eq_length.mpr hall, List.length_filterMap_eq_countP, h.accounted.ingested]
  refine List.countP_congr fun handler hmem => ?_
  obtain ⟨response, hpoint⟩ := hquiet.handlers handler hmem
  by_cases hstatus : response.status = 202 <;>
    simp [Handler.ingested, Handler.response?, Handler.published?, hpoint, hstatus]

end Quiet

/-! ## Whole runs -/

section Run

variable {codec : Codec Body Value} {initial : Db} {labels : List (Turn Body)}
  {state : Platform Body Value}

theorem conserved_of_run (hcodec : codec.RoundTrip) (htyped : Typed initial)
    (hrun : (platform codec).run (Platform.start initial) labels = some state) :
    Conserved codec initial state :=
  System.run_invariant _ (conserved_start htyped)
    (fun _ _ _ hconserved hstep => hconserved.step hcodec hstep) hrun

/--
In every state of every run, the messages handed to Kafka for a user are in
the score of the user, undelivered or unprocessed.  At rest the score of each
user is the number of its 202 answers, the scores sum to the ingested counter,
and each type counter is the number of accepted events of that type.
-/
theorem score_conserved (hcodec : codec.RoundTrip)
    (hleaderboard : initial leaderboardKey = none)
    (htypes : ∀ eventType, initial (typeKey eventType) = none)
    (hrun : (platform codec).run (Platform.start initial) labels = some state) :
    (∀ userID, (state.handed.countP (fun message => message.key = userID) : Int) =
      (Tally.userScore userID).read state.db + unprocessed codec state.loop userID +
        state.undelivered.countP fun message => message.key = userID) ∧
      (state.Quiet →
        (∀ userID, (Tally.userScore userID).read state.db =
          state.gateway.handlers.countP (answered202 "user_id" userID)) ∧
        Tally.totalScore.read state.db = state.gateway.metrics.eventsIngested ∧
        ∀ eventType, (Tally.typeCount eventType).read state.db =
          state.gateway.handlers.countP (answered202 "event_type" eventType)) := by
  have hconserved := conserved_of_run hcodec (typed_of_new hleaderboard htypes) hrun
  refine ⟨hconserved.score_eq hleaderboard, fun hquiet =>
    ⟨fun userID => ?_, ?_, fun eventType => ?_⟩⟩
  · have hzero : (Tally.userScore userID).read initial = 0 := by
      simp [Tally.userScore, hleaderboard]
    rw [hconserved.read_quiet hquiet, hzero, zero_add,
      Tally.sum_flatMap_updates (Tally.userScore_updates userID), countP_published_quiet hquiet]
  · have hzero : Tally.totalScore.read initial = 0 := by simp [Tally.totalScore, hleaderboard]
    rw [hconserved.read_quiet hquiet, hzero, zero_add,
      Tally.sum_flatMap_updates Tally.totalScore_updates, ← hconserved.total_quiet hquiet]
    simp
  · have hzero : (Tally.typeCount eventType).read initial = 0 := by
      simp [Tally.typeCount, htypes, counterOf]
    rw [hconserved.read_quiet hquiet, hzero, zero_add,
      Tally.sum_flatMap_updates (Tally.typeCount_updates eventType),
      countP_published_quiet hquiet]

def loginTurns : List (Turn String) :=
  ([.request loginBody, .compute 0, .compute 0, .compute 0, .compute 0, .readClock 0 5,
    .redis 0 5 .replied, .redis 0 5 .replied, .redis 0 5 .replied, .redis 0 5 .replied,
    .compute 0, .write 0 true, .compute 0].map .gateway) ++
  .deliver 0 :: List.replicate 3 .aggregate ++ [.gateway (.compute 0), .expire 2000000000] ++
  List.replicate 3 .aggregate ++ [.gateway (.compute 0)]

theorem score_conserved_login :
    ∃ state, (platform loginCodec).run (Platform.start fun _ => none) loginTurns = some state ∧
      (Tally.userScore "alice").read state.db =
        state.gateway.handlers.countP (answered202 "user_id" "alice") ∧
      (Tally.userScore "alice").read state.db = 1 := by
  have hrun : (platform loginCodec).run (Platform.start fun _ => none) loginTurns = some _ := rfl
  obtain ⟨-, hquiet⟩ := score_conserved loginCodec_roundTrip rfl (fun _ => rfl) hrun
  refine ⟨_, hrun, (hquiet ⟨?_, rfl, rfl⟩).1 "alice", by decide⟩
  intro handler hmem
  obtain rfl := List.mem_singleton.mp hmem
  exact ⟨accepted, rfl⟩

end Run

end NexPulse.EndToEnd
