import NexPulse.EndToEnd.Isolation
import NexPulse.Ingest.Decision
import NexPulse.RateLimit.Concurrent

/-!
# How much of a user gets through

The handlers of one user run their pipelines against each other and against the
other clients of Redis, and any command may fail.  The calls of AllowRequest in
them form a race, with the replies read off the history of the gateway, so the
cap of the limiter bounds the messages that are handed to the writer.
-/

namespace NexPulse.RateLimit

open NexPulse.Foundation NexPulse.Foundation.Redis

/-! ## A race with lost replies -/

theorem countVal_of_prefix {replies longer : List Reply} (hlong : 3 ≤ replies.length)
    (h : replies <+: longer) : countVal longer = countVal replies := by
  obtain ⟨more, rfl⟩ := h
  match replies, hlong with
  | _ :: _ :: third :: _, _ => cases third <;> rfl

section Race

variable {Call : Type*} {userID : String} {limit window start : Int} {reading : Call → Int}
  {state next : Race Call} {call : Call}

theorem Race.counted_of_prefix (h : state.replies call <+: next.replies call) {count : Int}
    (hcounted : state.counted call = some count) : next.counted call = some count := by
  have hlong := Race.three_le_of_counted hcounted
  have hlonger : 3 ≤ next.progress call := Nat.le_trans hlong h.length_le
  rw [Race.counted, if_pos hlong] at hcounted
  rw [Race.counted, if_pos hlonger, countVal_of_prefix hlong h]
  exact hcounted

theorem Race.Safe.of_prefix (h : next.Safe userID limit window start reading)
    (hdb : state.db (userKey userID) = next.db (userKey userID))
    (hreplies : ∀ call, state.replies call <+: next.replies call) :
    state.Safe userID limit window start reading where
  holdsSet := hdb ▸ h.holdsSet
  stored call hadded hread := by
    have hsame : state.set userID = next.set userID := by rw [Race.set, Race.set, hdb]
    rw [hsame]
    exact h.stored call (Nat.le_trans hadded (hreplies call).length_le) hread
  capped calls hcalls := by
    refine h.capped calls fun call hcall => ?_
    obtain ⟨hin, count, hle, hcounted⟩ := hcalls call hcall
    exact ⟨hin, count, hle, Race.counted_of_prefix (hreplies call) hcounted⟩

theorem stepSpec_of_exec [DecidableEq Call] (hwindow : 0 < window)
    (hset : HoldsSet (state.db (userKey userID))) {command : Command}
    (hcommand : (pipeline userID window (reading call))[state.progress call]? = some command)
    (clock : Int) :
    StepSpec userID window reading state
      ⟨(command.exec clock state.db).2, Function.update state.replies call
        (state.replies call ++ [(command.exec clock state.db).1])⟩ call
      (command.exec clock state.db).1 := by
  obtain ⟨hlt, heffect, hprune, hcard⟩ := pipeline_stage hwindow hcommand
  obtain ⟨hkey, hop⟩ := pipeline_onSetAt userID window (reading call) command
    (List.mem_of_getElem? hcommand)
  rw [← hkey] at hset
  have heffectSet := Command.setOf_exec clock hset hop
  refine ⟨hlt, rfl, ?_, ?_, fun error => Op.apply_ne_error _ _ hset hop error, fun hfirst => ?_,
    fun hcount => ?_⟩
  · exact hkey ▸ Command.holdsSet_exec hset hop
  · rw [Race.set, Race.set, ← heffect, ← hkey]
    exact heffectSet
  · rw [Race.set, Race.set, ← hkey, heffectSet]
    simp only [Command.exec, hprune hfirst]
    exact onSortedSet_reply hset
  · rw [Race.set, ← hkey]
    simp only [Command.exec, hcard hcount]
    exact Op.zCard_reply _ hset

theorem Race.Safe.exec [DecidableEq Call] (hdistinct : reading.Injective) (hwindow : 0 < window)
    (hread : ∀ call, reading call ≤ start + window)
    (h : state.Safe userID limit window start reading) {command : Command}
    (hcommand : (pipeline userID window (reading call))[state.progress call]? = some command)
    (clock : Int)
    (hdb : next.db (userKey userID) = (command.exec clock state.db).2 (userKey userID))
    (hself : next.replies call <+: state.replies call ++ [(command.exec clock state.db).1])
    (hothers : ∀ other, other ≠ call → next.replies other = state.replies other) :
    next.Safe userID limit window start reading := by
  have hspec := stepSpec_of_exec hwindow h.holdsSet hcommand clock
  have hsafe := h.step hdistinct (fun call _ => hread call) hspec
  refine hsafe.of_prefix hdb fun other => ?_
  by_cases hsame : other = call
  · subst hsame
    simpa using hself
  · simp [hothers other hsame, hsame]

end Race

end NexPulse.RateLimit

namespace NexPulse.Ingest

open NexPulse.Foundation NexPulse.Foundation.Redis NexPulse.RateLimit NexPulse.EndToEnd

variable {Body Value : Type*}

/-! ## The calls of the handlers -/

/-- The user and the clock reading of a call that starts between the two points. -/
def asked? (before after : Point Body) : Option (String × Int) :=
  match before, after with
  | .readingClock _, .limiting userID now _ => some (userID, now)
  | _, _ => none

/-- The replies that a call has got between the two points. -/
def replied (before after : Point Body) : List Reply :=
  match before, after with
  | .limiting _ _ replies, .limiting _ _ longer => longer.drop replies.length
  | _, _ => []

def Change.asked? (change : Change Body Value) : Option (String × Int) :=
  Ingest.asked? change.before.point change.after.point

def Change.replied (change : Change Body Value) : List Reply :=
  Ingest.replied change.before.point change.after.point

namespace Ledger

def asked? (state : Ledger Body Value) (id : Nat) : Option (String × Int) :=
  (state.changesOf id).findSome? Change.asked?

def replies (state : Ledger Body Value) (id : Nat) : List Reply :=
  (state.changesOf id).flatMap Change.replied

end Ledger

def Asks (asked : Option (String × Int)) (replies : List Reply)
    (answers : List (Except Error Bool)) (handler : Handler Body) : Prop :=
  match handler.point with
  | .entered _ | .binding _ | .checking | .pinging _ | .readingClock _ =>
      asked = none ∧ replies = [] ∧ answers = []
  | .limiting userID now executed =>
      asked = some (userID, now) ∧ replies = executed ∧ answers = []
  | _ => ∀ allowed, .ok allowed ∈ answers → 4 ≤ replies.length ∧ verdict limit replies = .ok allowed

section Asks

variable {codec : Codec Body Value} {asked : Option (String × Int)} {replies : List Reply}
  {answers : List (Except Error Bool)} {changes : List (Change Body Value)}
  {handler : Handler Body}

theorem Asks.step {before after : Handler Body} {old : Metrics} {effect : Effect Value}
    (h : Asks asked replies answers before)
    (goes : Goes codec before.event old before.point after effect) :
    Asks (asked.or (asked? before.point after.point))
      (replies ++ replied before.point after.point)
      (answers ++ (answer? before.point after.point).toList) after := by
  obtain ⟨event, point⟩ := before
  dsimp only at goes
  cases goes with
  | enter | bind | valid | ping =>
      obtain ⟨rfl, rfl, rfl⟩ : asked = none ∧ replies = [] ∧ answers = [] := h
      exact ⟨rfl, rfl, rfl⟩
  | bindError | missing =>
      obtain ⟨rfl, rfl, rfl⟩ : asked = none ∧ replies = [] ∧ answers = [] := h
      exact fun allowed hmem => absurd hmem List.not_mem_nil
  | readClock userID now =>
      obtain ⟨rfl, rfl, rfl⟩ : asked = none ∧ replies = [] ∧ answers = [] := h
      exact ⟨rfl, rfl, rfl⟩
  | reply userID now executed reply command sent =>
      obtain ⟨rfl, rfl, rfl⟩ : asked = some (userID, now) ∧ replies = executed ∧ answers = [] := h
      exact ⟨rfl, by simp [replied], rfl⟩
  | limiterDown userID now executed command sent =>
      have unfinished : executed.length < 4 := (List.getElem?_eq_some_iff.mp sent).1
      obtain ⟨rfl, rfl, rfl⟩ : asked = some (userID, now) ∧ replies = executed ∧ answers = [] := h
      intro allowed hmem
      simp [answer?, unfinished] at hmem
  | limiterOpen userID now executed finished | limiterDenied userID now executed finished =>
      obtain ⟨rfl, rfl, rfl⟩ : asked = some (userID, now) ∧ replies = executed ∧ answers = [] := h
      intro allowed hmem
      have hverdict : verdict limit replies = .ok allowed := by
        simpa [answer?, Nat.not_lt.mpr finished, eq_comm] using hmem
      simpa [replied] using ⟨finished, hverdict⟩
  | write message written key marshalled =>
      have hanswered : ∀ allowed, .ok allowed ∈ answers →
          4 ≤ replies.length ∧ verdict limit replies = .ok allowed := h
      cases written <;> simpa [Asks, answer?, replied] using hanswered
  | limited | marshalError | panic | count | reject | respond | leave =>
      simpa [Asks, answer?, replied] using h

theorem Life.asks (h : Life codec changes handler) :
    Asks (changes.findSome? Change.asked?) (changes.flatMap Change.replied)
      (changes.filterMap Change.answer?) handler := by
  induction h with
  | entered body => exact ⟨rfl, rfl, rfl⟩
  | step id life goes ih =>
      rw [List.findSome?_append, List.findSome?_singleton, List.flatMap_append,
        List.flatMap_singleton, List.filterMap_append, filterMap_singleton]
      exact ih.step goes

end Asks

/-! ## The race of the calls for one user -/

abbrev CallOf (asked : Nat → Option (String × Int)) (userID : String) : Type :=
  {call : Nat × Int // asked call.1 = some (userID, call.2)}

def CallOf.reading {asked : Nat → Option (String × Int)} {userID : String}
    (call : CallOf asked userID) : Int :=
  call.1.2

def Ledger.race (state : Ledger Body Value) (asked : Nat → Option (String × Int))
    (userID : String) : Race (CallOf asked userID) :=
  ⟨state.db, fun call => state.replies call.1.1⟩

section Record

variable {state : Ledger Body Value} {moved : Moved Body Value} {id : Nat}
  {before after : Handler Body}

theorem changesOf_record (hbefore : state.gateway.handlers[id]? = some before)
    (hafter : moved.gateway.handlers[id]? = some after) (other : Nat) :
    (state.record (some id) moved).changesOf other = state.changesOf other ++
      if id = other then [⟨id, before, after, state.gateway.metrics, moved.gateway.metrics,
        moved.handed⟩] else [] := by
  have hchange : state.change? moved id = some ⟨id, before, after, state.gateway.metrics,
      moved.gateway.metrics, moved.handed⟩ := by
    rw [Ledger.change?, hbefore, Option.bind_some, hafter, Option.map_some]
  rw [Ledger.changesOf, Ledger.record, Option.bind_some, hchange, List.filter_append]
  split <;> simp [Ledger.changesOf, *]

theorem replies_record (hbefore : state.gateway.handlers[id]? = some before)
    (hafter : moved.gateway.handlers[id]? = some after) (other : Nat) :
    (state.record (some id) moved).replies other = state.replies other ++
      if id = other then replied before.point after.point else [] := by
  rw [Ledger.replies, changesOf_record hbefore hafter, List.flatMap_append]
  split <;> simp [Ledger.replies, Change.replied]

end Record

section Step

variable {codec : Codec Body Value} {state next : Ledger Body Value} {before after : Handler Body}
  {metrics : Metrics}

theorem replied_of_goes {effect : Effect Value}
    (goes : Goes codec before.event metrics before.point after effect)
    (hunasked : effect.asked = none) : replied before.point after.point = [] := by
  obtain ⟨event, point⟩ := before
  dsimp only at goes
  cases goes with
  | reply | limiterDown => contradiction
  | _ => rfl

theorem limiting_of_redis {command : Command} {continued : Reply → Handler Body}
    (h : before.step codec metrics = .redis command continued) :
    ∃ userID now executed, before.point = .limiting userID now executed ∧
      (pipeline userID window now)[executed.length]? = some command ∧
      (continued (.error .connection)).point = .producing ∧
      ∀ reply, (continued reply).point = .producing ∨
        (continued reply).point = .limiting userID now (executed ++ [reply]) := by
  obtain ⟨event, point⟩ := before
  cases point with
  | limiting userID now executed =>
      simp only [Handler.step] at h
      split at h
      · next found hfound =>
          obtain ⟨rfl, rfl⟩ := Step.redis.inj h
          refine ⟨userID, now, executed, rfl, hfound, rfl, fun reply => ?_⟩
          dsimp only
          split
          · exact .inl rfl
          · exact .inr rfl
      · split at h <;> cases h
  | binding body =>
      simp only [Handler.step] at h
      split at h <;> cases h
  | checking =>
      simp only [Handler.step] at h
      split at h <;> cases h
  | producing =>
      simp only [Handler.step] at h
      split at h
      · cases h
      · split at h <;> cases h
  | _ => cases h

end Step

section Run

variable {codec : Codec Body Value} {state next : Ledger Body Value} {happening : Happening Body}
  {asked : Nat → Option (String × Int)} {userID : String} {start : Int}

def Leaves (userID : String) (state : Ledger Body Value) : Happening Body → Prop
  | .others db => db (userKey userID) = state.db (userKey userID)
  | .move _ => True

theorem Recorded.call (h : Recorded codec state) {id : Nat} {handler : Handler Body}
    (hfound : state.gateway.handlers[id]? = some handler) {user : String} {now : Int}
    {executed : List Reply} (hpoint : handler.point = .limiting user now executed) :
    state.asked? id = some (user, now) ∧ state.replies id = executed := by
  have hasks := (h.lives.life id handler hfound).asks
  rw [Asks, hpoint] at hasks
  exact ⟨hasks.1, hasks.2.1⟩

theorem safe_redis (hrecorded : Recorded codec state)
    (hdistinct : (CallOf.reading : CallOf asked userID → Int).Injective)
    (hread : ∀ call : CallOf asked userID, call.reading ≤ start + window)
    (hasked : ∀ id call, state.asked? id = some call → asked id = some call)
    (h : (state.race asked userID).Safe userID limit window start CallOf.reading)
    {id : Nat} {before : Handler Body} {command : Command} {continued : Reply → Handler Body}
    (hfound : state.gateway.handlers[id]? = some before)
    (hstep : before.step codec state.gateway.metrics = .redis command continued) (clock : Int)
    (outcome : Outcome) {moved : Moved Body Value}
    (hdb : moved.db = (command.attempt clock outcome state.db).2)
    (hafter : moved.gateway.handlers[id]? =
      some (continued (command.attempt clock outcome state.db).1)) :
    ((state.record (some id) moved).race asked userID).Safe userID limit window start
      CallOf.reading := by
  obtain ⟨user, now, executed, hpoint, hcommand, hfailed, hcontinued⟩ := limiting_of_redis hstep
  obtain ⟨hcall, hreplies⟩ := hrecorded.call hfound hpoint
  have hrecord := replies_record hfound hafter
  have hkey : command.key = userKey user :=
    (pipeline_onSetAt user window now command (List.mem_of_getElem? hcommand)).1
  by_cases huser : user = userID
  · subst huser
    let call : CallOf asked user := ⟨(id, now), hasked id _ hcall⟩
    have hothers (other : CallOf asked user) (hother : other ≠ call) :
        ((state.record (some id) moved).race asked user).replies other =
          (state.race asked user).replies other := by
      have hne : id ≠ other.1.1 := by
        rintro rfl
        have hsame := (hasked _ _ hcall).symm.trans other.2
        simp only [Option.some.injEq, Prod.mk.injEq, true_and] at hsame
        exact hother (Subtype.ext (Prod.ext rfl hsame.symm))
      simp [Ledger.race, hrecord, hne]
    have hself : ((state.record (some id) moved).race asked user).replies call =
        (state.race asked user).replies call ++
          replied before.point (continued (command.attempt clock outcome state.db).1).point := by
      simp [Ledger.race, hrecord, call]
    have hnext : (pipeline user window call.reading)[(state.race asked user).progress call]? =
        some command := by
      have hprogress : (state.race asked user).progress call = executed.length :=
        congrArg List.length hreplies
      rw [hprogress]
      exact hcommand
    have hlost : replied before.point (continued (.error .connection)).point = [] := by
      rw [hpoint, hfailed]
      rfl
    cases outcome with
    | notExecuted =>
        refine h.of_prefix (congrFun hdb _) fun other => ?_
        by_cases hother : other = call
        · rw [hother, hself, Command.attempt, hlost, List.append_nil]
        · rw [hothers other hother]
    | replyLost =>
        refine h.exec hdistinct (by decide) hread hnext clock (congrFun hdb _) ?_ hothers
        rw [hself, Command.attempt, hlost]
        exact (List.prefix_append_right_inj _).mpr List.nil_prefix
    | replied =>
        refine h.exec hdistinct (by decide) hread hnext clock (congrFun hdb _) ?_ hothers
        rw [hself, List.prefix_append_right_inj]
        rcases hcontinued (command.exec clock state.db).1 with hproducing | hlimiting
        · rw [Command.attempt, hpoint, hproducing]
          exact List.nil_prefix
        · rw [Command.attempt, hpoint, hlimiting, replied, List.drop_left]
          exact List.prefix_refl _
  · refine h.of_prefix ?_ fun other => ?_
    · have hother : userKey userID ≠ command.key := by
        rw [hkey, ne_eq, userKey_inj]
        exact Ne.symm huser
      exact (congrFun hdb _).trans (Command.attempt_other hother)
    · have hne : id ≠ other.1.1 := by
        rintro rfl
        have hsame := (hasked _ _ hcall).symm.trans other.2
        simp only [Option.some.injEq, Prod.mk.injEq] at hsame
        exact huser hsame.1
      simp [Ledger.race, hrecord, hne]

theorem safe_other (h : (state.race asked userID).Safe userID limit window start CallOf.reading)
    {id : Nat} {before after : Handler Body} {moved : Moved Body Value}
    (hfound : state.gateway.handlers[id]? = some before)
    (hafter : moved.gateway.handlers[id]? = some after) (hdb : moved.db = state.db)
    (hreplied : replied before.point after.point = []) :
    ((state.record (some id) moved).race asked userID).Safe userID limit window start
      CallOf.reading := by
  refine h.of_prefix (congrFun hdb _) fun call => ?_
  change (state.record (some id) moved).replies call.1.1 <+: state.replies call.1.1
  rw [replies_record hfound hafter, hreplied, ite_self, List.append_nil]

theorem safe_step (hrecorded : Recorded codec state)
    (hdistinct : (CallOf.reading : CallOf asked userID → Int).Injective)
    (hread : ∀ call : CallOf asked userID, call.reading ≤ start + window)
    (hasked : ∀ id call, state.asked? id = some call → asked id = some call)
    (hleaves : Leaves userID state happening)
    (h : (state.race asked userID).Safe userID limit window start CallOf.reading)
    (hstep : (ledger codec).step state happening = some next) :
    (next.race asked userID).Safe userID limit window start CallOf.reading := by
  cases happening with
  | others db =>
      obtain rfl := Option.some.inj hstep
      exact h.of_prefix hleaves fun call => List.prefix_refl _
  | move move =>
      obtain ⟨moved, hmove, rfl⟩ := Option.map_eq_some_iff.mp hstep
      have hset {id : Nat} {before after : Handler Body}
          (hfound : state.gateway.handlers[id]? = some before) :
          (state.gateway.handlers.set id after)[id]? = some after :=
        List.getElem?_set_self (List.getElem?_eq_some_iff.mp hfound).1
      have hcovered (handler : Handler Body) {step : Step Body Value}
          (hstep : handler.step codec state.gateway.metrics = step) :
          step.Covered codec handler state.gateway.metrics :=
        hstep ▸ handler.step_covered codec state.gateway.metrics
      cases Gateway.performs_of_move hmove with
      | request body =>
          refine h.of_prefix rfl fun call => ?_
          simp [Ledger.race, Ledger.record, Ledger.replies, Ledger.changesOf, Move.mover]
      | redis id clock outcome before command continued hfound hredis =>
          exact safe_redis hrecorded hdistinct hread hasked h hfound hredis clock outcome rfl
            (hset hfound)
      | compute id before after metrics hfound hcompute =>
          exact safe_other h hfound (hset hfound) rfl
            (replied_of_goes (hcovered before hcompute) rfl)
      | ping id before after hfound hping =>
          exact safe_other h hfound (hset hfound) rfl
            (replied_of_goes (hcovered before hping) rfl)
      | readClock id now before after hfound hclock =>
          exact safe_other h hfound (hset hfound) rfl
            (replied_of_goes (hcovered before hclock now) rfl)
      | write id written before message after hfound hwrite =>
          exact safe_other h hfound (hset hfound) rfl
            (replied_of_goes (hcovered before hwrite written) rfl)

theorem asked_of_step (hstep : (ledger codec).step state happening = some next) {id : Nat}
    {call : String × Int} (h : state.asked? id = some call) : next.asked? id = some call := by
  have hgrows : ∃ more, next.history = state.history ++ more := by
    cases happening with
    | others db =>
        obtain rfl := Option.some.inj hstep
        exact ⟨[], (List.append_nil _).symm⟩
    | move move =>
        obtain ⟨moved, -, rfl⟩ := Option.map_eq_some_iff.mp hstep
        exact ⟨_, rfl⟩
  obtain ⟨more, hmore⟩ := hgrows
  rw [Ledger.asked?, Ledger.changesOf] at h
  rw [Ledger.asked?, Ledger.changesOf, hmore, List.filter_append, List.findSome?_append, h,
    Option.some_or]

theorem safe_of_run {db : Db} {labels : List (Happening Body)}
    (hrun : (ledger codec).run (Ledger.start db) labels = some state)
    (hset : HoldsSet (db (userKey userID)))
    (hleaves : (ledger codec).Along (Leaves userID) (Ledger.start db) labels)
    (hdistinct : (CallOf.reading : CallOf state.asked? userID → Int).Injective)
    (hread : ∀ call : CallOf state.asked? userID, call.reading ≤ start + window) :
    (state.race state.asked? userID).Safe userID limit window start CallOf.reading := by
  refine (ledger codec).run_induction
    (P := fun labels previous => (ledger codec).Along (Leaves userID) (Ledger.start db) labels →
      (∀ id call, previous.asked? id = some call → state.asked? id = some call) →
        (previous.race state.asked? userID).Safe userID limit window start CallOf.reading)
    ?_ ?_ hrun hleaves fun _ _ h => h
  · intro _ _
    exact Race.Safe.init hset
  · intro labels previous happening next hprevious ih hstep halong hasked
    obtain ⟨hbefore, hlast⟩ := ((ledger codec).along_concat hprevious).mp halong
    have hearlier (id : Nat) (call : String × Int) (h : previous.asked? id = some call) :
        state.asked? id = some call :=
      hasked id call (asked_of_step hstep h)
    exact safe_step (recorded_of_run hprevious) hdistinct hread hearlier hlast
      (ih hbefore hearlier) hstep

theorem Asks.verdict {call : Option (String × Int)} {replies : List Reply}
    {answers : List (Except Error Bool)} {handler : Handler Body}
    (h : Asks call replies answers handler) {allowed : Bool} (hmem : .ok allowed ∈ answers) :
    4 ≤ replies.length ∧ verdict limit replies = .ok allowed := by
  obtain ⟨event, point⟩ := handler
  cases point with
  | entered | binding | checking | pinging | readingClock | limiting =>
      obtain ⟨-, -, rfl⟩ := h
      exact absurd hmem List.not_mem_nil
  | _ => exact h allowed hmem

theorem countVal_le_of_verdict {replies : List Reply} {limit : Int}
    (h : RateLimit.verdict limit replies = .ok true) : countVal replies ≤ limit := by
  unfold RateLimit.verdict at h
  split at h
  · contradiction
  · simpa using h

/--
Of the requests of a user with a reading in one window, at most 50 hand a
message to the writer without an error of the limiter, as long as no request of
the user has a later reading, in any interleaving and with any failures of Redis.
-/
theorem handed_cap {db : Db} {labels : List (Happening Body)}
    (hrun : (ledger codec).run (Ledger.start db) labels = some state)
    (hset : HoldsSet (db (userKey userID)))
    (hleaves : (ledger codec).Along (Leaves userID) (Ledger.start db) labels)
    (hdistinct : ∀ first second now, state.asked? first = some (userID, now) →
      state.asked? second = some (userID, now) → first = second)
    (hread : ∀ id now, state.asked? id = some (userID, now) → now ≤ start + window)
    {ids : Finset Nat}
    (hids : ∀ id ∈ ids, (∃ now, state.asked? id = some (userID, now) ∧ start < now) ∧
      state.handed id ≠ [] ∧ ∀ error, .error error ∉ state.answers id) :
    ids.card ≤ 50 := by
  have hsafe : (state.race state.asked? userID).Safe userID limit window start CallOf.reading := by
    refine safe_of_run hrun hset hleaves ?_ fun call => hread _ _ call.2
    intro first second hsame
    have hid := hdistinct first.1.1 second.1.1 first.1.2 first.2
      (by rw [second.2]; exact congrArg _ (Prod.ext rfl hsame.symm))
    exact Subtype.ext (Prod.ext hid hsame)
  choose! reading hasked hstart using fun id hmem => (hids id hmem).1
  let calls : Finset (CallOf state.asked? userID) := ids.attach.map
    ⟨fun id => ⟨(id.1, reading id.1), hasked id.1 id.2⟩, fun first second hsame =>
      Subtype.ext (congrArg (fun call => call.1.1) hsame)⟩
  have hcard : calls.card = ids.card := by rw [Finset.card_map, Finset.card_attach]
  rw [← hcard]
  refine hsafe.capped calls fun call hcall => ?_
  obtain ⟨⟨id, hmem⟩, -, rfl⟩ := Finset.mem_map.mp hcall
  obtain ⟨-, hhanded, hanswered⟩ := hids id hmem
  have hrecorded := recorded_of_run hrun
  rcases hrecorded.handed_cases id with hnone | ⟨handler, hfound, ⟨answer, honly, hdenied⟩, -⟩
  · exact absurd hnone hhanded
  · have hallowed : Except.ok true ∈ state.answers id := by
      rw [honly, List.mem_singleton]
      cases answer with
      | error error => exact absurd (honly ▸ List.mem_singleton_self _) (hanswered error)
      | ok allowed =>
          cases allowed with
          | false => exact absurd rfl hdenied
          | true => rfl
    obtain ⟨hlong, hverdict⟩ :=
      (hrecorded.lives.life id handler hfound).asks.verdict hallowed
    refine ⟨⟨hstart id hmem, hread id _ (hasked id hmem)⟩, _, countVal_le_of_verdict hverdict, ?_⟩
    exact if_pos (Nat.le_of_succ_le hlong)

def Ledger.calls (state : Ledger Body Value) : List (Nat × String × Int) :=
  state.history.filterMap fun change => change.asked?.map fun call => (change.id, call)

theorem mem_of_asked {id : Nat} {call : String × Int} (h : state.asked? id = some call) :
    (id, call) ∈ state.calls := by
  obtain ⟨change, hmem, hcall⟩ := List.exists_of_findSome?_eq_some h
  obtain ⟨hhistory, hid⟩ := List.mem_filter.mp hmem
  refine List.mem_filterMap.mpr ⟨change, hhistory, ?_⟩
  rw [hcall, Option.map_some, of_decide_eq_true hid]

def overlapping : List (Happening String) :=
  [.request loginBody, .request loginBody, .compute 0, .compute 0, .compute 0, .compute 0,
    .compute 1, .compute 1, .compute 1, .compute 1, .readClock 0 7, .readClock 1 5,
    .redis 0 7 .replied, .redis 1 7 .replied, .redis 1 7 .replied, .redis 0 7 .replied,
    .redis 0 7 .replied, .redis 0 7 .replied, .redis 1 8 .replied, .redis 1 8 .replied,
    .compute 0, .write 0 true, .compute 1, .write 1 true].map .move

theorem handed_cap_overlapping :
    ∃ state, (ledger loginCodec).run (Ledger.start fun _ => none) overlapping = some state ∧
      state.handed 0 ≠ [] ∧ state.handed 1 ≠ [] ∧ ({0, 1} : Finset Nat).card ≤ 50 := by
  have hfacts : ((ledger loginCodec).run (Ledger.start fun _ => none) overlapping).any
      fun state => state.calls = [(0, "alice", 7), (1, "alice", 5)] ∧
        state.asked? 0 = some ("alice", 7) ∧ state.asked? 1 = some ("alice", 5) ∧
        ∀ id ∈ [0, 1], state.handed id ≠ [] ∧
          (state.answers id).map Except.toOption = [some true] := by
    decide +kernel
  obtain ⟨state, hrun, hchecked⟩ := (Option.any_eq_true _ _).mp hfacts
  obtain ⟨hcalls, hfirst, hsecond, hboth⟩ := of_decide_eq_true hchecked
  have hknown {id : Nat} {now : Int} (h : state.asked? id = some ("alice", now)) :
      id = 0 ∧ now = 7 ∨ id = 1 ∧ now = 5 := by
    have hmem := mem_of_asked h
    rw [hcalls] at hmem
    simpa using hmem
  have hanswered (id : Nat) (hmem : id ∈ [0, 1]) (error : Error) :
      .error error ∉ state.answers id := by
    intro hfailed
    have hnone := List.mem_map_of_mem (f := Except.toOption) hfailed
    rw [(hboth id hmem).2] at hnone
    exact absurd hnone (by simp [Except.toOption])
  have hleaves : (ledger loginCodec).Along (Leaves "alice") (Ledger.start fun _ => none)
      overlapping := by
    refine (ledger loginCodec).along_of_forall_mem (fun happening hmem _ => ?_) _
    obtain ⟨move, -, rfl⟩ := List.mem_map.mp hmem
    trivial
  have hcap : ({0, 1} : Finset Nat).card ≤ 50 := by
    refine @handed_cap _ _ _ _ _ 0 _ _ hrun trivial hleaves ?_ ?_ _ ?_
    · intro first second now hasked hother
      have hone := hknown hasked
      have htwo := hknown hother
      omega
    · intro id now hasked
      have hwindow : window = 1000000000 := rfl
      have hone := hknown hasked
      omega
    · intro id hmem
      rcases Finset.mem_insert.mp hmem with rfl | hmem
      · exact ⟨⟨7, hfirst, by decide⟩, (hboth 0 (by simp)).1, hanswered 0 (by simp)⟩
      · obtain rfl := Finset.mem_singleton.mp hmem
        exact ⟨⟨5, hsecond, by decide⟩, (hboth 1 (by simp)).1, hanswered 1 (by simp)⟩
  exact ⟨state, hrun, (hboth 0 (by simp)).1, (hboth 1 (by simp)).1, hcap⟩

end Run

end NexPulse.Ingest
