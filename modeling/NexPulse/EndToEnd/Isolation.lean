import NexPulse.Aggregate.Tally
import NexPulse.Foundation.Transition
import NexPulse.Query.Leaderboard

/-!
# One Redis for all services

The limiter, the aggregator and the leaderboard use one database, and nothing
is sent in a transaction: Redis executes single commands, in any order.  Redis
has a clock of its own, which does not run backwards; a key is gone once its
deadline has passed.  The keys of the three families differ, so what a user is
told by the limiter depends on the calls for this user only.
-/

namespace NexPulse.EndToEnd

open NexPulse.Foundation NexPulse.Foundation.Redis NexPulse.RateLimit NexPulse.Ingest
open NexPulse.Aggregate NexPulse.Query

structure Asked where
  userID : String
  limit : Int
  window : Int
  now : Int

inductive Act (Call : Type*) where
  | limiter (call : Call) (clock : Int)
  | returns (call : Call)
  | update (event : Event) (command : Command) (clock : Int)
  | leaderboard (clock : Int)

structure Shared (Call : Type*) where
  clock : Int
  db : Db
  replies : Call → List Reply
  verdicts : List (Call × Except Error Bool)
  -- The commands that Redis has executed, with its replies.
  served : List (Command × Reply)

namespace Shared

variable {Call : Type*}

def start (clock : Int) (db : Db) : Shared Call := ⟨clock, db, fun _ => [], [], []⟩

def result (state : Shared Call) (command : Command) (clock : Int) : Reply × Db :=
  command.exec clock (state.db.purge clock)

def serve (state : Shared Call) (command : Command) (clock : Int) : Shared Call :=
  { state with
    clock := clock
    db := (state.result command clock).2
    served := state.served ++ [(command, (state.result command clock).1)] }

variable [DecidableEq Call]

def reply (state : Shared Call) (call : Call) (reply : Reply) : Shared Call :=
  { state with replies := Function.update state.replies call (state.replies call ++ [reply]) }

end Shared

section System

variable {Call : Type*} [DecidableEq Call]

def shared (asked : Call → Asked) : System (Shared Call) (Act Call) where
  step state
    | .limiter call clock =>
        let pipe := pipeline (asked call).userID (asked call).window (asked call).now
        match pipe[(state.replies call).length]? with
        | some command =>
            if state.clock ≤ clock then
              some ((state.serve command clock).reply call (state.result command clock).1)
            else none
        | none => none
    | .returns call =>
        if (state.replies call).length = 4 ∧ call ∉ state.verdicts.map Prod.fst then
          some { state with
            verdicts := state.verdicts ++
              [(call, verdict (asked call).limit (state.replies call))] }
        else none
    | .update event command clock =>
        if command ∈ updates event ∧ state.clock ≤ clock then some (state.serve command clock)
        else none
    | .leaderboard clock =>
        if state.clock ≤ clock then
          some (state.serve (zRevRangeWithScores leaderboardKey 0 (10 - 1)) clock)
        else none

def Act.isFor (asked : Call → Asked) (userID : String) : Act Call → Bool
  | .limiter call _ | .returns call => (asked call).userID = userID
  | .update .. | .leaderboard _ => false

end System

/-! ## The types of the keys -/

def SetKey (key : String) : Prop := key = leaderboardKey ∨ ∃ userID, key = userKey userID

theorem SetKey.ne_typeKey {key : String} (h : SetKey key) (eventType : String) :
    key ≠ typeKey eventType := by
  rcases h with rfl | ⟨userID, rfl⟩
  · exact leaderboardKey_ne_typeKey eventType
  · exact fun heq => userKey_not_aggregate userID (.inr ⟨eventType, heq⟩)

structure KeysTyped (db : Db) : Prop where
  sets : ∀ key, SetKey key → HoldsSet (db key)
  counters : ∀ eventType, HoldsCounter (db (typeKey eventType))

inductive Fits : Command → Prop where
  | set (key : String) (op : Op String) (hkey : SetKey key) (hop : op ≠ .incr) : Fits ⟨key, op⟩
  | counter (eventType : String) : Fits ⟨typeKey eventType, .incr⟩

theorem fits_of_mem_pipeline {userID : String} {window now : Int} {command : Command}
    (h : command ∈ pipeline userID window now) : Fits command := by
  obtain ⟨hkey, hop⟩ := pipeline_onSetAt userID window now command h
  exact .set command.key command.op (.inr ⟨userID, hkey⟩) hop

theorem fits_of_mem_updates {event : Event} {command : Command} (h : command ∈ updates event) :
    Fits command := by
  cases update_of_mem_updates h with
  | incr eventType => exact .counter eventType
  | zIncrBy userID => exact .set _ _ (.inl rfl) (by simp)

theorem fits_leaderboard : Fits (zRevRangeWithScores leaderboardKey 0 (10 - 1)) :=
  .set _ _ (.inl rfl) (by simp)

section KeysTyped

variable {db : Db} {command : Command} {clock : Int}

theorem KeysTyped.purge (h : KeysTyped db) (clock : Int) : KeysTyped (db.purge clock) where
  sets key hkey := holdsSet_purge clock (h.sets key hkey)
  counters eventType := holdsCounter_purge clock (h.counters eventType)

theorem KeysTyped.exec (h : KeysTyped db) (hfits : Fits command) (clock : Int) :
    KeysTyped (command.exec clock db).2 := by
  cases hfits with
  | set key op hkey hop =>
      refine ⟨fun other hother => ?_, fun eventType => ?_⟩
      · by_cases hself : other = key
        · subst hself
          refine Command.holdsSet_exec ?_ hop
          exact h.sets other hkey
        · rw [Command.exec_other hself]
          exact h.sets other hother
      · rw [Command.exec_other (hkey.ne_typeKey eventType).symm]
        exact h.counters eventType
  | counter eventType =>
      refine ⟨fun other hother => ?_, fun other => ?_⟩
      · rw [Command.exec_other (hother.ne_typeKey eventType)]
        exact h.sets other hother
      · by_cases hself : other = eventType
        · subst hself
          exact (Command.exec_self clock ⟨typeKey other, .incr⟩ db) ▸
            (Op.counterOf_incr clock (h.counters other)).1
        · rw [Command.exec_other fun hkey => hself (typeKey_inj.mp hkey)]
          exact h.counters other

theorem KeysTyped.exec_ne_error (h : KeysTyped db) (hfits : Fits command) (clock : Int)
    (error : Error) : (command.exec clock db).1 ≠ .error error := by
  cases hfits with
  | set key op hkey hop => exact Op.apply_ne_error clock op (h.sets key hkey) hop error
  | counter eventType => exact Op.incr_ne_error clock (h.counters eventType) error

end KeysTyped

/-! ## What a step does -/

section Step

variable {Call : Type*} [DecidableEq Call] {asked : Call → Asked} {state next : Shared Call}
  {act : Act Call}

inductive Acts (asked : Call → Asked) (state : Shared Call) : Act Call → Shared Call → Prop where
  | limiter (call : Call) (clock : Int) (command : Command)
      (found : (pipeline (asked call).userID (asked call).window
        (asked call).now)[(state.replies call).length]? = some command)
      (later : state.clock ≤ clock) :
      Acts asked state (.limiter call clock)
        ((state.serve command clock).reply call (state.result command clock).1)
  | returns (call : Call) (finished : (state.replies call).length = 4)
      (first : call ∉ state.verdicts.map Prod.fst) :
      Acts asked state (.returns call) { state with
        verdicts := state.verdicts ++ [(call, verdict (asked call).limit (state.replies call))] }
  | foreign (act : Act Call) (command : Command) (clock : Int) (fits : Fits command)
      (aggregate : AggregateKey command.key) (later : state.clock ≤ clock)
      (noUser : ∀ userID, act.isFor asked userID = false) :
      Acts asked state act (state.serve command clock)

theorem aggregateKey_of_mem_updates {event : Event} {command : Command}
    (h : command ∈ updates event) : AggregateKey command.key := by
  cases update_of_mem_updates h with
  | incr eventType => exact .inr ⟨eventType, rfl⟩
  | zIncrBy userID => exact .inl rfl

theorem acts_of_step (h : (shared asked).step state act = some next) :
    Acts asked state act next := by
  cases act with
  | limiter call clock =>
      simp only [shared] at h
      split at h
      · next command hfound =>
          obtain ⟨hlater, hnext⟩ := Option.ite_none_right_eq_some.mp h
          obtain rfl := Option.some.inj hnext
          exact .limiter call clock command hfound hlater
      · contradiction
  | returns call =>
      obtain ⟨⟨hfinished, hfirst⟩, hnext⟩ := Option.ite_none_right_eq_some.mp h
      obtain rfl := Option.some.inj hnext
      exact .returns call hfinished hfirst
  | update event command clock =>
      obtain ⟨⟨hmem, hlater⟩, hnext⟩ := Option.ite_none_right_eq_some.mp h
      obtain rfl := Option.some.inj hnext
      exact .foreign _ command clock (fits_of_mem_updates hmem) (aggregateKey_of_mem_updates hmem)
        hlater fun _ => rfl
  | leaderboard clock =>
      obtain ⟨hlater, hnext⟩ := Option.ite_none_right_eq_some.mp h
      obtain rfl := Option.some.inj hnext
      exact .foreign _ _ clock fits_leaderboard (.inl rfl) hlater fun _ => rfl

/-! ## No command meets a value of another type -/

structure Sound (state : Shared Call) : Prop where
  typed : KeysTyped state.db
  served : ∀ entry ∈ state.served, ∀ error, entry.2 ≠ .error error

omit [DecidableEq Call] in
theorem Sound.serve (h : Sound state) {command : Command} (hfits : Fits command) (clock : Int) :
    Sound (state.serve command clock) where
  typed := (h.typed.purge clock).exec hfits clock
  served entry hentry error := by
    rcases List.mem_append.mp hentry with hold | hnew
    · exact h.served entry hold error
    · obtain rfl := List.mem_singleton.mp hnew
      exact (h.typed.purge clock).exec_ne_error hfits clock error

theorem Sound.acts (h : Sound state) (hacts : Acts asked state act next) : Sound next := by
  cases hacts with
  | limiter call clock command hfound hlater =>
      have hserved := h.serve (fits_of_mem_pipeline (List.mem_of_getElem? hfound)) clock
      exact ⟨hserved.typed, hserved.served⟩
  | returns call hfinished hfirst => exact ⟨h.typed, h.served⟩
  | foreign act command clock hfits haggregate hlater hforeign => exact h.serve hfits clock

/-! ## The run of one user -/

structure Isolated (asked : Call → Asked) (userID : String) (full part : Shared Call) : Prop where
  clock : part.clock ≤ full.clock
  cell : ∀ clock, full.clock ≤ clock →
    full.db.purge clock (userKey userID) = part.db.purge clock (userKey userID)
  replies : ∀ call, (asked call).userID = userID → full.replies call = part.replies call
  verdicts : part.verdicts = full.verdicts.filter fun given => (asked given.1).userID = userID

theorem userKey_inj {first second : String} : userKey first = userKey second ↔ first = second :=
  String.append_right_inj _

section Isolated

variable {userID : String} {full part : Shared Call} {command : Command} {clock : Int}

omit [DecidableEq Call] in
theorem Isolated.serve_foreign (h : Isolated asked userID full part)
    (hkey : userKey userID ≠ command.key) (hlater : full.clock ≤ clock) :
    Isolated asked userID (full.serve command clock) part where
  clock := h.clock.trans hlater
  cell later hle := by
    have hsame : (full.serve command clock).db (userKey userID) =
        full.db.purge clock (userKey userID) := Command.exec_other hkey
    have hpurged := congrFun (purge_purge hle full.db) (userKey userID)
    rw [← h.cell later (hlater.trans hle), ← hpurged]
    exact congrArg (Option.filter (Cell.live later)) hsame
  replies := h.replies
  verdicts := h.verdicts

omit [DecidableEq Call] in
theorem Isolated.serve_own (h : Isolated asked userID full part)
    (hkey : command.key = userKey userID) (hlater : full.clock ≤ clock) :
    (full.result command clock).1 = (part.result command clock).1 ∧
      Isolated asked userID (full.serve command clock) (part.serve command clock) := by
  have hcell := h.cell clock hlater
  rw [← hkey] at hcell
  refine ⟨?_, le_rfl, fun later hle => ?_, h.replies, h.verdicts⟩
  · simp only [Shared.result, Command.exec, hcell]
  · have hsame : (full.serve command clock).db (userKey userID) =
        (part.serve command clock).db (userKey userID) := by
      simp only [Shared.serve, Shared.result, ← hkey, Command.exec_self, hcell]
    exact congrArg (Option.filter (Cell.live later)) hsame

theorem Isolated.reply_own (h : Isolated asked userID full part) (call : Call) (given : Reply) :
    Isolated asked userID (full.reply call given) (part.reply call given) where
  clock := h.clock
  cell := h.cell
  replies other hother := by
    by_cases hself : other = call
    · subst hself
      simp [Shared.reply, h.replies other hother]
    · simp [Shared.reply, hself, h.replies other hother]
  verdicts := h.verdicts

theorem Isolated.reply_foreign (h : Isolated asked userID full part) {call : Call} (given : Reply)
    (hforeign : (asked call).userID ≠ userID) :
    Isolated asked userID (full.reply call given) part where
  clock := h.clock
  cell := h.cell
  replies other hother := by
    have hne : other ≠ call := by
      rintro rfl
      exact hforeign hother
    simp [Shared.reply, hne, h.replies other hother]
  verdicts := h.verdicts

theorem Isolated.kept (h : Isolated asked userID full part) (hact : act.isFor asked userID)
    (hstep : (shared asked).step full act = some next) :
    ∃ other, (shared asked).step part act = some other ∧ Isolated asked userID next other := by
  cases acts_of_step hstep with
  | limiter call clock command hfound hlater =>
      have huser : (asked call).userID = userID := by simpa [Act.isFor] using hact
      have hkey : command.key = userKey userID :=
        huser ▸ (pipeline_onSetAt _ _ _ command (List.mem_of_getElem? hfound)).1
      obtain ⟨hreply, hserved⟩ := h.serve_own hkey hlater
      rw [h.replies call huser] at hfound
      refine ⟨(part.serve command clock).reply call (part.result command clock).1, ?_, ?_⟩
      · simp [shared, hfound, h.clock.trans hlater]
      · rw [hreply]
        exact hserved.reply_own call _
  | returns call hfinished hfirst =>
      have huser : (asked call).userID = userID := by simpa [Act.isFor] using hact
      have hreplies := h.replies call huser
      have hfirstPart : call ∉ part.verdicts.map Prod.fst := by
        rw [h.verdicts]
        exact fun hmem => hfirst ((List.filter_sublist.map Prod.fst).subset hmem)
      rw [hreplies] at hfinished ⊢
      refine ⟨_, if_pos ⟨hfinished, hfirstPart⟩, h.clock, h.cell, h.replies, ?_⟩
      simp [h.verdicts, List.filter_append, huser]
  | foreign act command clock hfits haggregate hlater hforeign =>
      rw [hforeign userID] at hact
      contradiction

theorem Isolated.dropped (h : Isolated asked userID full part) (hact : ¬ act.isFor asked userID)
    (hstep : (shared asked).step full act = some next) : Isolated asked userID next part := by
  cases acts_of_step hstep with
  | limiter call clock command hfound hlater =>
      have huser : (asked call).userID ≠ userID := by simpa [Act.isFor] using hact
      have hkey := (pipeline_onSetAt _ _ _ command (List.mem_of_getElem? hfound)).1
      have hne : userKey userID ≠ command.key := by
        rw [hkey, ne_eq, userKey_inj]
        exact huser.symm
      exact (h.serve_foreign hne hlater).reply_foreign _ huser
  | returns call hfinished hfirst =>
      have huser : (asked call).userID ≠ userID := by simpa [Act.isFor] using hact
      refine ⟨h.clock, h.cell, h.replies, ?_⟩
      simp [h.verdicts, List.filter_append, huser]
  | foreign act command clock hfits haggregate hlater hforeign =>
      refine h.serve_foreign ?_ hlater
      intro heq
      exact userKey_not_aggregate userID (heq ▸ haggregate)

end Isolated

/--
The verdicts given to a user are those of the run that keeps only the calls for
this user; every command that Redis executes meets a value of its own type.
-/
theorem user_isolated (asked : Call → Asked) (userID : String) (clock : Int) (initial : Db)
    (labels : List (Act Call)) (state : Shared Call) (htyped : KeysTyped initial)
    (hrun : (shared asked).run (.start clock initial) labels = some state) :
    (∃ own, (shared asked).run (.start clock initial) (labels.filter (Act.isFor asked userID)) =
        some own ∧
      own.verdicts = state.verdicts.filter fun given => (asked given.1).userID = userID) ∧
      KeysTyped state.db ∧ ∀ entry ∈ state.served, ∀ error, entry.2 ≠ .error error := by
  have hstart : Isolated asked userID (Shared.start clock initial) (Shared.start clock initial) :=
    ⟨le_rfl, fun _ _ => rfl, fun _ _ => rfl, rfl⟩
  obtain ⟨own, hown, hisolated⟩ := System.run_filter _
    (fun _ _ _ _ hrelated hact hstep => hrelated.kept hact hstep)
    (fun _ _ _ _ hrelated hact hstep => hrelated.dropped hact hstep) hstart hrun
  have hsound : Sound state := System.run_invariant _
    (⟨htyped, fun _ hentry => nomatch hentry⟩ : Sound (Shared.start clock initial))
    (fun _ _ _ hsound hstep => hsound.acts (acts_of_step hstep)) hrun
  exact ⟨⟨own, hown, hisolated.verdicts⟩, hsound.typed, hsound.served⟩

end Step

def twoUsers : Bool → Asked
  | true => ⟨"alice", 50, nanosecondsPerSecond, 5⟩
  | false => ⟨"bob", 50, nanosecondsPerSecond, 5⟩

def interleaved : List (Act Bool) :=
  [.limiter true 5, .limiter false 5, .update loginEvent ⟨leaderboardKey, .zIncrBy 1 "alice"⟩ 6,
    .limiter true 6, .limiter false 7, .limiter true 7, .leaderboard 8, .limiter true 8,
    .returns true]

theorem user_isolated_two_users :
    ∃ state own, (shared twoUsers).run (.start 0 fun _ => none) interleaved = some state ∧
      (shared twoUsers).run (.start 0 fun _ => none)
        (interleaved.filter (Act.isFor twoUsers "alice")) = some own ∧
      own.verdicts = [(true, .ok true)] ∧ ∀ entry ∈ state.served, entry.2 ≠ .error .wrongType := by
  have hrun : (shared twoUsers).run (.start 0 fun _ => none) interleaved = some _ := rfl
  obtain ⟨⟨own, hown, hverdicts⟩, -, hserved⟩ := user_isolated twoUsers "alice" 0 (fun _ => none)
    interleaved _ ⟨fun _ _ => trivial, fun _ => trivial⟩ hrun
  exact ⟨_, own, hrun, hown, hverdicts, fun entry hentry => hserved entry hentry _⟩

end NexPulse.EndToEnd
