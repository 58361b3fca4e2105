import NexPulse.Foundation.Transition
import NexPulse.RateLimit.Cap

/-!
# Concurrent calls for one user

go-redis sends a pipeline without MULTI, so between two commands of one call
Redis may execute commands of other calls.  A state holds the database and, for
every call, the replies to the commands it has had executed so far; a schedule
names the call whose next command Redis executes.  Key expiry is left aside.
-/

namespace NexPulse.RateLimit

open NexPulse.Foundation NexPulse.Foundation.Redis

structure Race (Call : Type*) where
  db : Db
  replies : Call → List Reply

namespace Race

variable {Call : Type*}

def start (db : Db) : Race Call := ⟨db, fun _ => []⟩

def progress (state : Race Call) (call : Call) : Nat := (state.replies call).length

def set (state : Race Call) (userID : String) : SortedSet String Int :=
  setOf (state.db (userKey userID))

/-- What AllowRequest has returned to a call, once its whole pipeline has been executed. -/
def returned (state : Race Call) (limit : Int) (call : Call) : Option (Except Error Bool) :=
  if state.progress call = 4 then some (verdict limit (state.replies call)) else none

def counted (state : Race Call) (call : Call) : Option Int :=
  if 3 ≤ state.progress call then some (countVal (state.replies call)) else none

theorem three_le_of_counted {state : Race Call} {call : Call} {count : Int}
    (h : state.counted call = some count) : 3 ≤ state.progress call := by
  by_contra hearly
  simp [counted, hearly] at h

theorem counted_of_returned {state : Race Call} {limit : Int} {call : Call}
    (h : state.returned limit call = some (.ok true)) :
    ∃ count ≤ limit, state.counted call = some count := by
  unfold returned at h
  split at h
  · next hdone =>
      have hverdict : verdict limit (state.replies call) = .ok true := Option.some.inj h
      unfold verdict at hverdict
      split at hverdict
      · contradiction
      · refine ⟨countVal (state.replies call), ?_, by simp [counted, hdone]⟩
        simpa using hverdict
  · contradiction

end Race

variable {Call : Type*} [DecidableEq Call]

/-- Redis executes the next command of `call`; a finished call has none. -/
def race (userID : String) (window : Int) (reading : Call → Int) : System (Race Call) Call where
  step state call :=
    match (pipeline userID window (reading call))[state.progress call]? with
    | none => none
    | some command =>
        let result := command.exec (reading call) state.db
        some {
          db := result.2
          replies := Function.update state.replies call (state.replies call ++ [result.1]) }

def stageEffect (window now : Int) : Nat → SortedSet String Int → SortedSet String Int
  | 0, set => set.removeRange 0 (now - window)
  | 1, set => set.insert (toString now) now
  | _, set => set

structure StepSpec (userID : String) (window : Int) (reading : Call → Int)
    (state next : Race Call) (call : Call) (reply : Reply) : Prop where
  unfinished : state.progress call < 4
  replies : next.replies = Function.update state.replies call (state.replies call ++ [reply])
  holdsSet : HoldsSet (next.db (userKey userID))
  set : next.set userID =
    stageEffect window (reading call) (state.progress call) (state.set userID)
  reply_ne_error : ∀ error, reply ≠ .error error
  removed : state.progress call = 0 →
    reply = .int ((state.set userID).card - (next.set userID).card)
  count : state.progress call = 2 → reply = .int (state.set userID).card

theorem pipeline_stage {userID : String} {window now : Int} {stage : Nat} {command : Command}
    (hwindow : 0 < window) (h : (pipeline userID window now)[stage]? = some command) :
    stage < 4 ∧ command.op.onSet = stageEffect window now stage ∧
      (stage = 0 → command.op = .zRemRangeByScore 0 (now - window)) ∧
      (stage = 2 → command.op = .zCard) := by
  match stage with
  | 0 | 1 | 2 =>
      obtain rfl := Option.some.inj h
      exact ⟨by decide, rfl, by simp, by simp⟩
  | 3 =>
      obtain rfl := Option.some.inj h
      have hexpire : ¬ formatSec window ≤ 0 := not_le.mpr (formatSec_pos hwindow)
      refine ⟨by decide, ?_, by simp, by simp⟩
      funext set
      simp [Op.onSet, stageEffect, hexpire]
  | stage + 4 => simp [pipeline] at h

section Step

variable {userID : String} {window : Int} {reading : Call → Int} {state next : Race Call}
  {call : Call}

theorem race_step_spec (hwindow : 0 < window) (hset : HoldsSet (state.db (userKey userID)))
    (h : (race userID window reading).step state call = some next) :
    ∃ reply, StepSpec userID window reading state next call reply := by
  simp only [race] at h
  split at h
  · contradiction
  · next command hcommand =>
      obtain ⟨hlt, heffect, hprune, hcard⟩ := pipeline_stage hwindow hcommand
      obtain ⟨hkey, hop⟩ := pipeline_onSetAt userID window (reading call) command
        (List.mem_of_getElem? hcommand)
      obtain rfl := Option.some.inj h
      rw [← hkey] at hset
      have heffectSet := Command.setOf_exec (reading call) hset hop
      refine ⟨(command.exec (reading call) state.db).1, hlt, rfl, ?_, ?_,
        fun error => Op.apply_ne_error _ _ hset hop error, fun hfirst => ?_, fun hcount => ?_⟩
      · exact hkey ▸ Command.holdsSet_exec hset hop
      · rw [Race.set, Race.set, ← heffect, ← hkey]
        exact heffectSet
      · rw [Race.set, Race.set, ← hkey, heffectSet]
        simp only [Command.exec, hprune hfirst]
        exact onSortedSet_reply hset
      · rw [Race.set, ← hkey]
        simp only [Command.exec, hcard hcount]
        exact Op.zCard_reply _ hset

theorem race_holdsSet (hwindow : 0 < window) {db : Db} (hset : HoldsSet (db (userKey userID)))
    {schedule : List Call}
    (hrun : (race userID window reading).run (Race.start db) schedule = some state) :
    HoldsSet (state.db (userKey userID)) :=
  (race userID window reading).run_invariant hset
    (fun _ _ _ hholds hstep => (race_step_spec hwindow hholds hstep).elim
      fun _ hspec => hspec.holdsSet) hrun

end Step

namespace StepSpec

variable {userID : String} {window : Int} {reading : Call → Int} {state next : Race Call}
  {call : Call} {reply : Reply}

theorem progress_self (h : StepSpec userID window reading state next call reply) :
    next.progress call = state.progress call + 1 := by
  simp [Race.progress, h.replies]

theorem progress_other (h : StepSpec userID window reading state next call reply) {other : Call}
    (hne : other ≠ call) : next.progress other = state.progress other := by
  simp [Race.progress, h.replies, hne]

theorem replies_other (h : StepSpec userID window reading state next call reply) {other : Call}
    (hne : other ≠ call) : next.replies other = state.replies other := by
  simp [h.replies, hne]

theorem progress_le (h : StepSpec userID window reading state next call reply) (other : Call) :
    state.progress other ≤ next.progress other := by
  by_cases hother : other = call
  · rw [hother, h.progress_self]
    omega
  · rw [h.progress_other hother]

theorem counted_other (h : StepSpec userID window reading state next call reply) {other : Call}
    (hne : other ≠ call) : next.counted other = state.counted other := by
  simp only [Race.counted, h.progress_other hne, h.replies_other hne]

theorem counted_self (h : StepSpec userID window reading state next call reply) :
    next.counted call =
      if state.progress call = 2 then some ((state.set userID).card : Int)
      else state.counted call := by
  simp only [Race.counted, h.progress_self, h.replies, Function.update_self]
  by_cases hcount : state.progress call = 2
  · rw [h.count hcount, countVal_third hcount]
    simp [hcount]
  · by_cases hdone : 3 ≤ state.progress call
    · rw [countVal_append hdone]
      simp [hcount, hdone, Nat.le_succ_of_le hdone]
    · have hearly : ¬ 3 ≤ state.progress call + 1 := by omega
      simp [hcount, hdone, hearly]

end StepSpec

/-! ## The cap over all schedules -/

def Race.Counts (state : Race Call) (limit window start : Int) (reading : Call → Int)
    (call : Call) : Prop :=
  InWindow start window (reading call) ∧ ∃ count ≤ limit, state.counted call = some count

structure Race.Safe (userID : String) (limit window start : Int) (reading : Call → Int)
    (state : Race Call) : Prop where
  holdsSet : HoldsSet (state.db (userKey userID))
  stored : ∀ call, 2 ≤ state.progress call → start < reading call →
    (state.set userID).Has (toString (reading call)) (reading call)
  capped : ∀ calls : Finset Call, (∀ call ∈ calls, state.Counts limit window start reading call) →
    calls.card ≤ limit.toNat

section Safe

variable {userID : String} {limit window start : Int} {reading : Call → Int}
  {state next : Race Call} {call : Call} {reply : Reply}

theorem Race.Safe.stored_step (hdistinct : reading.Injective)
    (hsafe : state.Safe userID limit window start reading)
    (hstarted : reading call ≤ start + window)
    (h : StepSpec userID window reading state next call reply) (other : Call)
    (hadded : 2 ≤ next.progress other) (hother : start < reading other) :
    (next.set userID).Has (toString (reading other)) (reading other) := by
  rw [h.set]
  by_cases hself : other = call
  · subst hself
    rw [h.progress_self] at hadded
    rcases Nat.lt_or_ge (state.progress other) 2 with hlt | hge
    · obtain hone : state.progress other = 1 := by omega
      rw [hone]
      exact SortedSet.has_insert_self _ _ _
    · match hstage : state.progress other, hge with
      | stage + 2, _ => exact hsafe.stored other (hstage ▸ hge) hother
  · rw [h.progress_other hself] at hadded
    have hstored := hsafe.stored other hadded hother
    match state.progress call with
    | 0 =>
        refine SortedSet.has_removeRange.mpr ⟨hstored, fun hrange => ?_⟩
        have := hrange.2
        omega
    | 1 =>
        refine SortedSet.has_insert.mpr (.inr ⟨fun heq => hself ?_, hstored⟩)
        exact hdistinct (toString_inj.mp heq)
    | _ + 2 => exact hstored

omit [DecidableEq Call] in
theorem Race.Safe.card_le (hdistinct : reading.Injective)
    (hsafe : state.Safe userID limit window start reading) {calls : Finset Call}
    (hcalls : ∀ call ∈ calls, 2 ≤ state.progress call ∧ start < reading call) :
    calls.card ≤ (state.set userID).card := by
  have hinj : Set.InjOn (fun call => toString (reading call)) calls :=
    fun _ _ _ _ heq => hdistinct (toString_inj.mp heq)
  exact SortedSet.card_le_of_forall_has hinj fun call hcall =>
    ⟨_, hsafe.stored call (hcalls call hcall).1 (hcalls call hcall).2⟩

theorem Race.Safe.capped_step (hdistinct : reading.Injective)
    (hsafe : state.Safe userID limit window start reading)
    (h : StepSpec userID window reading state next call reply) (calls : Finset Call)
    (hcalls : ∀ call ∈ calls, next.Counts limit window start reading call) :
    calls.card ≤ limit.toNat := by
  -- The call that counts last sees the entries of all the calls that counted before it.
  by_cases hcount : state.progress call = 2 ∧ call ∈ calls
  · obtain ⟨htwo, hmem⟩ := hcount
    obtain ⟨-, count, hle, hcounted⟩ := hcalls call hmem
    rw [h.counted_self, if_pos htwo, Option.some.injEq] at hcounted
    have hadded : ∀ other ∈ calls, 2 ≤ state.progress other ∧ start < reading other := by
      intro other hother
      obtain ⟨hin, _, _, hread⟩ := hcalls other hother
      refine ⟨?_, hin.1⟩
      by_cases hself : other = call
      · rw [hself, htwo]
      · rw [h.counted_other hself] at hread
        have := Race.three_le_of_counted hread
        omega
    have := hsafe.card_le hdistinct hadded
    omega
  · refine hsafe.capped calls fun other hother => ⟨(hcalls other hother).1, ?_⟩
    obtain ⟨count, hle, hcounted⟩ := (hcalls other hother).2
    refine ⟨count, hle, ?_⟩
    by_cases hself : other = call
    · subst hself
      rwa [h.counted_self, if_neg fun htwo => hcount ⟨htwo, hother⟩] at hcounted
    · rwa [h.counted_other hself] at hcounted

theorem Race.Safe.step (hdistinct : reading.Injective)
    (hsafe : state.Safe userID limit window start reading)
    (hstarted : ∀ call, 0 < next.progress call → reading call ≤ start + window)
    (h : StepSpec userID window reading state next call reply) :
    next.Safe userID limit window start reading where
  holdsSet := h.holdsSet
  stored := hsafe.stored_step hdistinct
    (hstarted call (by rw [h.progress_self]; exact Nat.succ_pos _)) h
  capped := hsafe.capped_step hdistinct h

omit [DecidableEq Call] in
theorem Race.Safe.init {db : Db} (hset : HoldsSet (db (userKey userID))) :
    (Race.start db : Race Call).Safe userID limit window start reading where
  holdsSet := hset
  stored call hadded := absurd hadded (by simp [Race.start, Race.progress])
  capped calls hcalls := by
    have hnone : calls = ∅ := by
      refine Finset.eq_empty_of_forall_notMem fun call hcall => ?_
      obtain ⟨-, count, -, hcounted⟩ := hcalls call hcall
      simp [Race.start, Race.counted, Race.progress] at hcounted
    simp [hnone]

/--
In every state that some schedule reaches, the calls let through number at
most `limit` on an interval that no started call's reading has passed.
-/
theorem race_cap (limit start : Int) (hdistinct : reading.Injective) {db : Db}
    (hset : HoldsSet (db (userKey userID))) {schedule : List Call}
    (hrun : (race userID window reading).run (Race.start db) schedule = some state)
    (hstarted : ∀ call, 0 < state.progress call → reading call ≤ start + window)
    {calls : Finset Call}
    (hcalls : ∀ call ∈ calls, start < reading call ∧ reading call ≤ start + window ∧
      state.returned limit call = some (.ok true)) :
    calls.card ≤ limit.toNat := by
  by_cases hwindow : 0 < window
  · have hsafe : state.Safe userID limit window start reading := by
      refine (race userID window reading).run_induction
        (P := fun _ state => (∀ call, 0 < state.progress call → reading call ≤ start + window) →
          state.Safe userID limit window start reading)
        (fun _ => Race.Safe.init hset) ?_ hrun hstarted
      intro labels previous call next hprevious ih hstep hstarted
      obtain ⟨reply, hspec⟩ :=
        race_step_spec hwindow (race_holdsSet hwindow hset hprevious) hstep
      have hsafe := ih fun other hother =>
        hstarted other (lt_of_lt_of_le hother (hspec.progress_le other))
      exact hsafe.step hdistinct hstarted hspec
    refine hsafe.capped calls fun call hcall => ?_
    obtain ⟨hlow, hhigh, hreturned⟩ := hcalls call hcall
    exact ⟨⟨hlow, hhigh⟩, Race.counted_of_returned hreturned⟩
  · have hnone : calls = ∅ := by
      refine Finset.eq_empty_of_forall_notMem fun call hcall => ?_
      have := hcalls call hcall
      omega
    simp [hnone]

end Safe

theorem race_cap_two_calls :
    (Finset.univ.filter fun call => (((race "alice" 10 fun call : Bool => if call then 2 else 1).run
      (Race.start fun _ => none) [false, true, false, false, true, true, false, true]).bind
        fun state => state.returned 1 call) = some (.ok true)).card ≤ Int.toNat 1 := by
  cases hrun : (race "alice" 10 fun call : Bool => if call then 2 else 1).run
      (Race.start fun _ => none) [false, true, false, false, true, true, false, true] with
  | none => simp
  | some state =>
      exact race_cap 1 0 (by decide) (by trivial) hrun (by simp) fun call hcall =>
        ⟨by cases call <;> decide, by cases call <;> decide, by simpa using hcall⟩

end NexPulse.RateLimit
