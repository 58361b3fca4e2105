import NexPulse.Aggregate.Restart
import NexPulse.Aggregate.Tally

/-!
# The aggregates of a log

The loop writes a counter for each event type and the leaderboard, starting
from a database without them.  Each command adds one to one count, so the keys
it leaves depend on how often each command was executed and on nothing else.
-/

namespace NexPulse.Aggregate

open NexPulse.Foundation NexPulse.Foundation.Redis NexPulse.RateLimit NexPulse.Ingest

def counted (count : Nat) : Option (Cell String) :=
  if count = 0 then none else some ⟨.counter count, none⟩

structure Written (commands : List Command) (initial db : Db) : Prop where
  counter : ∀ eventType,
    db (typeKey eventType) = counted (commands.count ⟨typeKey eventType, .incr⟩)
  leaderboard : ∃ set, db leaderboardKey = storeSet set none
  score : ∀ userID score, (setOf (db leaderboardKey)).Has userID score ↔
    0 < commands.count ⟨leaderboardKey, .zIncrBy 1 userID⟩ ∧
      score = commands.count ⟨leaderboardKey, .zIncrBy 1 userID⟩
  other : ∀ key, ¬ AggregateKey key → db key = initial key

section Written

variable {commands : List Command} {initial db : Db}

theorem written_nil (hleaderboard : initial leaderboardKey = none)
    (htypes : ∀ eventType, initial (typeKey eventType) = none) : Written [] initial initial where
  counter eventType := htypes eventType
  leaderboard := ⟨∅, hleaderboard⟩
  score userID score := by simp [hleaderboard]
  other _ _ := rfl

theorem incr_counted (count : Nat) :
    ((Op.incr : Op String).apply 0 (counted count)).2 = counted (count + 1) := by
  unfold counted
  by_cases hzero : count = 0
  · simp [hzero, Op.apply]
  · simp [hzero, Op.apply]

theorem count_concat (commands : List Command) (command other : Command) :
    (commands ++ [command]).count other =
      commands.count other + if command = other then 1 else 0 := by
  rw [List.count_append, List.count_singleton]
  simp

theorem Written.incr (h : Written commands initial db) (eventType : String) :
    Written (commands ++ [⟨typeKey eventType, .incr⟩]) initial
      ((⟨typeKey eventType, .incr⟩ : Command).exec 0 db).2 := by
  have hboard : ((⟨typeKey eventType, .incr⟩ : Command).exec 0 db).2 leaderboardKey =
      db leaderboardKey := Command.exec_other (leaderboardKey_ne_typeKey eventType)
  refine ⟨fun other => ?_, ?_, fun userID score => ?_, fun key hkey => ?_⟩
  · by_cases hself : other = eventType
    · subst hself
      rw [Command.exec_self 0 ⟨typeKey other, .incr⟩ db, h.counter, incr_counted, count_concat,
        if_pos rfl]
    · rw [Command.exec_other fun hkey => hself (typeKey_inj.mp hkey), h.counter, count_concat,
        if_neg (by simpa [typeKey_inj] using Ne.symm hself), Nat.add_zero]
  · rw [hboard]
    exact h.leaderboard
  · rw [hboard, h.score, count_concat, if_neg (by simp), Nat.add_zero]
  · rw [Command.exec_other fun heq => hkey (.inr ⟨eventType, heq⟩)]
    exact h.other key hkey

theorem Written.zIncrBy (h : Written commands initial db) (userID : String) :
    Written (commands ++ [⟨leaderboardKey, .zIncrBy 1 userID⟩]) initial
      ((⟨leaderboardKey, .zIncrBy 1 userID⟩ : Command).exec 0 db).2 := by
  obtain ⟨set, hset⟩ := h.leaderboard
  have hboard : ((⟨leaderboardKey, .zIncrBy 1 userID⟩ : Command).exec 0 db).2 leaderboardKey =
      storeSet (set.increment userID 1) none := by
    rw [Command.exec_self 0 ⟨leaderboardKey, .zIncrBy 1 userID⟩ db, hset]
    exact onSortedSet_storeSet _ _
  have hold : (set.score? userID).getD 0 = commands.count ⟨leaderboardKey, .zIncrBy 1 userID⟩ := by
    have hscore (score : Int) := h.score userID score
    rw [hset, setOf_storeSet] at hscore
    rcases Nat.eq_zero_or_pos (commands.count ⟨leaderboardKey, .zIncrBy 1 userID⟩) with hzero | hpos
    · have hnone : set.score? userID = none := by
        refine Option.eq_none_iff_forall_ne_some.mpr fun score hsome => ?_
        have hpositive := ((hscore score).mp (SortedSet.score?_eq_some_iff.mp hsome)).1
        omega
      rw [hnone, hzero]
      rfl
    · rw [SortedSet.score?_eq_some_iff.mpr ((hscore _).mpr ⟨hpos, rfl⟩)]
      rfl
  refine ⟨fun other => ?_, ⟨_, hboard⟩, fun other score => ?_, fun key hkey => ?_⟩
  · rw [Command.exec_other (leaderboardKey_ne_typeKey other).symm, h.counter, count_concat,
      if_neg (by simp), Nat.add_zero]
  · rw [hboard, setOf_storeSet, SortedSet.increment, SortedSet.has_insert, hold, count_concat]
    have hscore := h.score other score
    rw [hset, setOf_storeSet] at hscore
    by_cases hself : other = userID
    · subst hself
      simp
    · have hne : userID ≠ other := Ne.symm hself
      simp [hself, hne, hscore]
  · rw [Command.exec_other fun heq => hkey (.inl heq)]
    exact h.other key hkey

theorem Written.execAll (h : Written commands initial db) {more : List Command}
    (hupdates : ∀ command ∈ more, Update command) :
    Written (commands ++ more) initial (execAll 0 more db).2 := by
  induction more generalizing commands db with
  | nil =>
      rw [List.append_nil]
      exact h
  | cons command more ih =>
      obtain ⟨hfirst, hrest⟩ := List.forall_mem_cons.mp hupdates
      rw [← List.singleton_append, ← List.append_assoc]
      refine ih ?_ hrest
      cases hfirst with
      | incr eventType => exact h.incr eventType
      | zIncrBy userID => exact h.zIncrBy userID

theorem Written.unique {other : List Command} {after : Db} (h : Written commands initial db)
    (hother : Written other initial after)
    (hcount : ∀ command, commands.count command = other.count command) : db = after := by
  funext key
  by_cases hkey : AggregateKey key
  · rcases hkey with rfl | ⟨eventType, rfl⟩
    · obtain ⟨set, hset⟩ := h.leaderboard
      obtain ⟨otherSet, hotherSet⟩ := hother.leaderboard
      have hsame : set = otherSet := by
        ext userID score
        have hscore := h.score userID score
        have hotherScore := hother.score userID score
        rw [hset, setOf_storeSet] at hscore
        rw [hotherSet, setOf_storeSet] at hotherScore
        rw [hscore, hotherScore, hcount]
      rw [hset, hotherSet, hsame]
    · rw [h.counter, hother.counter, hcount]
  · rw [h.other key hkey, hother.other key hkey]

end Written

/-! ## The messages behind the counts -/

variable {Body Value : Type*}

/-- The messages that parse as an event whose field `key` is the string `text`. -/
def carrying (codec : Codec Body Value) (log : List (Message Value)) (key text : String) : Nat :=
  log.countP fun message => (codec.unmarshal message.value).bind (·.string? key) = some text

def users (codec : Codec Body Value) (log : List (Message Value)) : List String :=
  (log.filterMap fun message => (codec.unmarshal message.value).bind (·.string? "user_id")).dedup

section Counts

variable {codec : Codec Body Value} {log : List (Message Value)}

theorem count_flatMap_updatesOf {key text : String} {command : Command}
    (h : ∀ event, (updates event).count command = if event.string? key = some text then 1 else 0) :
    (log.flatMap (updatesOf codec)).count command = carrying codec log key text := by
  induction log with
  | nil => rfl
  | cons message log ih =>
      rw [List.flatMap_cons, List.count_append, ih, carrying, carrying, List.countP_cons, updatesOf]
      cases hparsed : codec.unmarshal message.value with
      | none => simp
      | some event => simp [h, add_comm]

theorem count_incr (eventType : String) :
    (log.flatMap (updatesOf codec)).count ⟨typeKey eventType, .incr⟩ =
      carrying codec log "event_type" eventType := by
  refine count_flatMap_updatesOf fun event => ?_
  unfold updates
  cases event.string? "event_type" <;> cases event.string? "user_id" <;>
    simp [List.count_cons, typeKey_inj]

theorem count_zIncrBy (userID : String) :
    (log.flatMap (updatesOf codec)).count ⟨leaderboardKey, .zIncrBy 1 userID⟩ =
      carrying codec log "user_id" userID := by
  refine count_flatMap_updatesOf fun event => ?_
  unfold updates
  cases event.string? "event_type" <;> cases event.string? "user_id" <;>
    simp [List.count_cons]

theorem mem_users {userID : String} :
    userID ∈ users codec log ↔ 0 < carrying codec log "user_id" userID := by
  simp [users, carrying, List.countP_pos_iff]

theorem map_snd_dueBetween_take (last : Nat) :
    (dueBetween codec log 0 last).map Prod.snd = (log.take last).flatMap (updatesOf codec) := by
  induction last with
  | zero => simp
  | succ last ih =>
      have hlast : (due codec log last).map Prod.snd =
          log[last]?.toList.flatMap (updatesOf codec) := by
        cases hmessage : log[last]? <;> simp [due, updatesAt, hmessage, Function.comp_def]
      rw [dueBetween_succ _ (Nat.zero_le _), List.map_append, ih, hlast, List.take_add_one,
        List.flatMap_append]

theorem map_snd_dueBetween :
    (dueBetween codec log 0 log.length).map Prod.snd = log.flatMap (updatesOf codec) := by
  rw [map_snd_dueBetween_take, List.take_length]

end Counts

/-! ## Runs without failures -/

def NoFailure : Action → Prop
  | .read | .flush _ => True
  | .work outcome => outcome = .replied
  | .readError | .crash _ => False

section Run

variable {codec : Codec Body Value} {log : List (Message Value)}

def Point.distance (codec : Codec Body Value) : Point Value → Nat
  | .head => 0
  | .processing => 1
  | .failing => 2
  | .executing _ queued _ => queued.length + 3
  | .parsing message => (updatesOf codec message).length + 4
  | .consumed message => (updatesOf codec message).length + 5

theorem Loop.work_replied (codec : Codec Body Value) {loop : Loop Value} (db : Db)
    (h : loop.point ≠ .head) :
    ∃ next after, loop.work codec .replied db = some (next, after) ∧
      next.point.distance codec < loop.point.distance codec := by
  obtain ⟨point, metrics⟩ := loop
  cases point with
  | head => exact absurd rfl h
  | consumed message => exact ⟨_, _, rfl, Nat.lt_succ_self _⟩
  | parsing message =>
      cases hparsed : codec.unmarshal message.value with
      | none =>
          simp only [work, hparsed]
          exact ⟨_, _, rfl, Nat.succ_pos _⟩
      | some event =>
          simp only [work, hparsed]
          exact ⟨_, _, rfl, by simp [Point.distance, updatesOf, hparsed]⟩
  | executing message queued replies =>
      cases queued with
      | nil =>
          cases herror : firstError replies with
          | none =>
              simp only [work, herror]
              exact ⟨_, _, rfl, by simp [Point.distance]⟩
          | some error =>
              simp only [work, herror]
              exact ⟨_, _, rfl, by simp [Point.distance]⟩
      | cons command queued => exact ⟨_, _, rfl, by simp [Point.distance]⟩
  | failing => exact ⟨_, _, rfl, by simp [Point.distance]⟩
  | processing => exact ⟨_, _, rfl, by simp [Point.distance]⟩

theorem exists_head (codec : Codec Body Value) (log : List (Message Value))
    (state : Consumer Value) :
    ∃ labels next, (∀ label ∈ labels, NoFailure label) ∧
      (consumer codec log).run state labels = some next ∧
      next.loop.point = .head ∧ next.position = state.position := by
  induction hdistance : state.loop.point.distance codec using Nat.strong_induction_on
    generalizing state with
  | _ distance ih =>
      by_cases hhead : state.loop.point = .head
      · exact ⟨[], state, by simp, rfl, hhead, rfl⟩
      · obtain ⟨loop, db, hwork, hless⟩ := Loop.work_replied codec state.db hhead
        obtain ⟨middle, hstep, rfl, hmiddle⟩ : ∃ middle,
            (consumer codec log).step state (.work .replied) = some middle ∧
              middle.loop = loop ∧ middle.position = state.position := by
          simp only [consumer, hwork, Option.map_some]
          exact ⟨_, rfl, rfl, rfl⟩
        obtain ⟨labels, next, hlabels, hrun, hnext, hposition⟩ :=
          ih _ (hdistance ▸ hless) middle rfl
        exact ⟨.work .replied :: labels, next, List.forall_mem_cons.mpr ⟨rfl, hlabels⟩,
          (System.run_cons_eq_some _).mpr ⟨_, hstep, hrun⟩, hnext, hposition.trans hmiddle⟩

theorem exists_consumed (codec : Codec Body Value) (log : List (Message Value)) (db : Db) :
    ∃ labels state, (∀ label ∈ labels, NoFailure label) ∧
      (consumer codec log).run (Consumer.start db) labels = some state ∧ state.Consumed log := by
  have hread (offset : Nat) (hle : offset ≤ log.length) :
      ∃ labels state, (∀ label ∈ labels, NoFailure label) ∧
        (consumer codec log).run (Consumer.start db) labels = some state ∧
        state.loop.point = .head ∧ state.position = offset := by
    induction offset with
    | zero => exact ⟨[], _, by simp, rfl, rfl, rfl⟩
    | succ offset ih =>
        obtain ⟨labels, state, hlabels, hrun, hhead, rfl⟩ := ih (Nat.le_of_succ_le hle)
        obtain ⟨message, hmessage⟩ : ∃ message, log[state.position]? = some message :=
          ⟨_, List.getElem?_eq_getElem hle⟩
        have hstep : (consumer codec log).step state .read = some { state with
            position := state.position + 1
            loop := { state.loop with point := .consumed message } } := by
          simp [consumer, hhead, hmessage]
        obtain ⟨rest, next, hrest, hrunRest, hnext, hposition⟩ :=
          exists_head codec log { state with
            position := state.position + 1
            loop := { state.loop with point := .consumed message } }
        refine ⟨labels ++ .read :: rest, next, ?_, ?_, hnext, hposition⟩
        · exact List.forall_mem_append.mpr ⟨hlabels, List.forall_mem_cons.mpr ⟨trivial, hrest⟩⟩
        · rw [System.run_append, hrun]
          exact (System.run_cons_eq_some _).mpr ⟨_, hstep, hrunRest⟩
  obtain ⟨labels, state, hlabels, hrun, hconsumed⟩ := hread log.length le_rfl
  exact ⟨labels, state, hlabels, hrun, hconsumed⟩

theorem written_of_run {initial : Db} (hleaderboard : initial leaderboardKey = none)
    (htypes : ∀ eventType, initial (typeKey eventType) = none) {labels : List Action}
    {state : Consumer Value} (hlabels : ∀ label ∈ labels, NoFailure label)
    (hrun : (consumer codec log).run (Consumer.start initial) labels = some state)
    (hconsumed : state.Consumed log) :
    Written (log.flatMap (updatesOf codec)) initial state.db := by
  have htransparent := transparent_of_run hrun (fun outcome => hlabels (.work outcome))
    (harmless_of_no_crash (fun received => hlabels (.crash received)) _)
  have hupdates : ∀ command ∈ log.flatMap (updatesOf codec), Update command := by
    intro command hcommand
    obtain ⟨message, -, hmem⟩ := List.mem_flatMap.mp hcommand
    exact update_of_mem_updatesOf hmem
  have hwritten := (written_nil hleaderboard htypes).execAll hupdates
  rwa [htransparent.db_eq, htransparent.applied_of_consumed hconsumed, map_snd_dueBetween]

end Run

end NexPulse.Aggregate
