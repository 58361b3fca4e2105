import NexPulse.RateLimit.Concurrent

/-!
# When interleaved calls agree with a serial order

The pipeline of a call is not a transaction.  The verdicts are those of a serial
order when the commands that are interleaved with a call commute with its own.
A prune must commute with the entries added before its own call adds: they lie
in its window, and what it removed early they would have removed too.  Between
the ZADD and the ZCARD of a call no other command may take the size of the set
across the limit.  The serial order is then the order of the ZADD commands.
-/

namespace NexPulse.RateLimit

open NexPulse.Foundation NexPulse.Foundation.Redis

variable {Call : Type*}

def serialVerdicts (userID : String) (limit window : Int) (reading : Call → Int) :
    List Call → Db → List (Call × Except Error Bool)
  | [], _ => []
  | call :: calls, db =>
      let result := allowRequest userID limit window (reading call) db
      (call, result.1) :: serialVerdicts userID limit window reading calls result.2

def serialDb (userID : String) (limit window : Int) (reading : Call → Int) :
    List Call → Db → Db
  | [], db => db
  | call :: calls, db =>
      serialDb userID limit window reading calls
        (allowRequest userID limit window (reading call) db).2

/-- Every call has returned what it returns when the calls run one at a time in some order. -/
def Serializable (userID : String) (limit window : Int) (reading : Call → Int) (db : Db)
    (state : Race Call) : Prop :=
  ∃ order : List Call, order.Nodup ∧ (∀ call, call ∈ order) ∧
    ∀ outcome ∈ serialVerdicts userID limit window reading order db,
      state.returned limit outcome.1 = some outcome.2

/--
When `call` adds its entry, no other call that has pruned reads a window later,
nor later at all if its prune removed an entry.
-/
def PrunersCommute (window : Int) (reading : Call → Int) (state : Race Call) (call : Call) : Prop :=
  state.progress call = 1 → ∀ other ≠ call, state.progress other = 1 →
    reading other < reading call + window ∧
      (state.replies other = [.int 0] ∨ reading other ≤ reading call)

/-- While another call waits for its count, the size stays on its side of the limit. -/
def SizeKeepsSide (userID : String) (limit window : Int) (reading : Call → Int)
    (state : Race Call) (call : Call) : Prop :=
  ∀ other ≠ call, state.progress other = 2 →
    (((state.set userID).card : Int) ≤ limit ↔
      ((stageEffect window (reading call) (state.progress call)
        (state.set userID)).card : Int) ≤ limit)

def Undisturbed (userID : String) (limit window : Int) (reading : Call → Int)
    (state : Race Call) (call : Call) : Prop :=
  PrunersCommute window reading state call ∧ SizeKeepsSide userID limit window reading state call

section Decidable

variable [Fintype Call] [DecidableEq Call] (userID : String) (limit window : Int)
  (reading : Call → Int) (state : Race Call) (call : Call)

instance : Decidable (PrunersCommute window reading state call) :=
  inferInstanceAs (Decidable (_ → _))

instance : Decidable (SizeKeepsSide userID limit window reading state call) :=
  inferInstanceAs (Decidable (∀ other ≠ call, _))

instance : Decidable (Undisturbed userID limit window reading state call) :=
  inferInstanceAs (Decidable (_ ∧ _))

end Decidable

section Serial

variable {userID : String} {limit window : Int} {reading : Call → Int}

theorem serialDb_concat (order : List Call) (call : Call) (db : Db) :
    serialDb userID limit window reading (order ++ [call]) db =
      (allowRequest userID limit window (reading call)
        (serialDb userID limit window reading order db)).2 := by
  induction order generalizing db with
  | nil => rfl
  | cons first order ih => exact ih _

theorem serialVerdicts_concat (order : List Call) (call : Call) (db : Db) :
    serialVerdicts userID limit window reading (order ++ [call]) db =
      serialVerdicts userID limit window reading order db ++
        [(call, (allowRequest userID limit window (reading call)
          (serialDb userID limit window reading order db)).1)] := by
  induction order generalizing db with
  | nil => rfl
  | cons first order ih => simp [serialVerdicts, serialDb, ih]

theorem mem_order_of_mem_serialVerdicts {order : List Call} {db : Db}
    {outcome : Call × Except Error Bool}
    (h : outcome ∈ serialVerdicts userID limit window reading order db) : outcome.1 ∈ order := by
  induction order generalizing db with
  | nil => simp [serialVerdicts] at h
  | cons first order ih =>
      rcases List.mem_cons.mp h with rfl | hrest
      · exact List.mem_cons_self
      · exact List.mem_cons_of_mem _ (ih hrest)

end Serial

/--
The serial run of the calls in `order`, those that have added their entry,
against the interleaved run: the stored set lacks only what calls between
their prune and their ZADD have removed early.
-/
structure Simulates (userID : String) (limit window : Int) (reading : Call → Int) (db : Db)
    (state : Race Call) (order : List Call) : Prop where
  holdsSet : HoldsSet (state.db (userKey userID))
  serialHoldsSet : HoldsSet (serialDb userID limit window reading order db (userKey userID))
  nodup : order.Nodup
  added : ∀ call, call ∈ order ↔ 2 ≤ state.progress call
  set : ∀ member score, (state.set userID).Has member score ↔
    (setOf (serialDb userID limit window reading order db (userKey userID))).Has member score ∧
      ∀ call, state.progress call = 1 → state.replies call ≠ [.int 0] →
        ¬ Prunes window (reading call) score
  pruned : ∀ member score, (state.set userID).Has member score →
    ∀ call, state.progress call = 1 → ¬ Prunes window (reading call) score
  waiting : ∀ outcome ∈ serialVerdicts userID limit window reading order db,
    state.progress outcome.1 = 2 →
      outcome.2 = .ok (decide (((state.set userID).card : Int) ≤ limit))
  counted : ∀ outcome ∈ serialVerdicts userID limit window reading order db, ∀ count,
    state.counted outcome.1 = some count → outcome.2 = .ok (decide (count ≤ limit))

section Simulation

variable {userID : String} {limit window : Int} {reading : Call → Int} {db : Db}
  {state next : Race Call} {call : Call} {reply : Reply} {order : List Call}

theorem Simulates.init (hset : HoldsSet (db (userKey userID))) :
    Simulates userID limit window reading db (Race.start db : Race Call) [] where
  holdsSet := hset
  serialHoldsSet := hset
  nodup := List.nodup_nil
  added := by simp [Race.start, Race.progress]
  set := by simp [Race.set, Race.start, Race.progress, serialDb]
  pruned := by simp [Race.start, Race.progress]
  waiting := by simp [serialVerdicts]
  counted := by simp [serialVerdicts]

variable [DecidableEq Call]

theorem StepSpec.has_prune (h : StepSpec userID window reading state next call reply)
    (hstage : state.progress call = 0) {member : String} {score : Int} :
    (next.set userID).Has member score ↔
      (state.set userID).Has member score ∧ ¬ Prunes window (reading call) score := by
  rw [h.set, hstage]
  exact SortedSet.has_removeRange

theorem StepSpec.set_of_removed_zero (h : StepSpec userID window reading state next call reply)
    (hstage : state.progress call = 0) (hzero : next.replies call = [.int 0]) :
    next.set userID = state.set userID := by
  have hnil : state.replies call = [] := List.length_eq_zero_iff.mp hstage
  rw [h.replies, Function.update_self, hnil, h.removed hstage] at hzero
  have hcard : (next.set userID).card = (state.set userID).card := by
    have hdiff : ((state.set userID).card : Int) - (next.set userID).card = 0 := by
      simpa using hzero
    omega
  rw [h.set, hstage] at hcard ⊢
  exact SortedSet.filter_eq_self_of_card hcard

theorem Simulates.waiting_other (hsim : Simulates userID limit window reading db state order)
    (h : StepSpec userID window reading state next call reply)
    (hok : Undisturbed userID limit window reading state call)
    {outcome : Call × Except Error Bool}
    (hmem : outcome ∈ serialVerdicts userID limit window reading order db)
    (hne : outcome.1 ≠ call) (hwaiting : next.progress outcome.1 = 2) :
    outcome.2 = .ok (decide (((next.set userID).card : Int) ≤ limit)) := by
  rw [h.progress_other hne] at hwaiting
  rw [hsim.waiting outcome hmem hwaiting, h.set, decide_eq_decide.mpr]
  exact hok.2 outcome.1 hne hwaiting

theorem Simulates.prune (hsim : Simulates userID limit window reading db state order)
    (h : StepSpec userID window reading state next call reply)
    (hok : Undisturbed userID limit window reading state call) (hstage : state.progress call = 0) :
    Simulates userID limit window reading db next order := by
  -- A prune removes from the stored set what it will remove again at the serial turn of the call.
  have hself : next.progress call = 1 := by rw [h.progress_self, hstage]
  have hother : ∀ other, next.progress other ≠ 1 → other ≠ call :=
    fun other hne heq => hne (heq ▸ hself)
  refine ⟨h.holdsSet, hsim.serialHoldsSet, hsim.nodup, fun other => ?_, fun member score => ?_,
    fun member score hhas other hone => ?_, fun outcome hmem hwaiting => ?_,
    fun outcome hmem count hcounted => ?_⟩
  · rw [hsim.added]
    by_cases heq : other = call
    · rw [heq, hself, hstage]
      simp
    · rw [h.progress_other heq]
  · constructor
    · intro hhas
      obtain ⟨hold, hkept⟩ := (h.has_prune hstage).mp hhas
      obtain ⟨hserial, hpending⟩ := (hsim.set member score).mp hold
      refine ⟨hserial, fun other hone hremoved => ?_⟩
      by_cases heq : other = call
      · exact heq ▸ hkept
      · rw [h.progress_other heq] at hone
        rw [h.replies_other heq] at hremoved
        exact hpending other hone hremoved
    · rintro ⟨hserial, hpending⟩
      have hold : (state.set userID).Has member score := by
        refine (hsim.set member score).mpr ⟨hserial, fun other hone hremoved => ?_⟩
        have hne : other ≠ call := by
          rintro rfl
          omega
        rw [← h.progress_other hne] at hone
        rw [← h.replies_other hne] at hremoved
        exact hpending other hone hremoved
      by_cases hzero : next.replies call = [.int 0]
      · rwa [h.set_of_removed_zero hstage hzero]
      · exact (h.has_prune hstage).mpr ⟨hold, hpending call hself hzero⟩
  · obtain ⟨hold, hkept⟩ := (h.has_prune hstage).mp hhas
    by_cases heq : other = call
    · exact heq ▸ hkept
    · exact hsim.pruned member score hold other (h.progress_other heq ▸ hone)
  · exact hsim.waiting_other h hok hmem (hother outcome.1 (by omega)) hwaiting
  · have hne : outcome.1 ≠ call := fun heq => by
      have := Race.three_le_of_counted hcounted
      rw [heq] at this
      omega
    exact hsim.counted outcome hmem count (h.counted_other hne ▸ hcounted)

theorem Simulates.set_eq_record (hsim : Simulates userID limit window reading db state order)
    (h : StepSpec userID window reading state next call reply)
    (hok : Undisturbed userID limit window reading state call) (hstage : state.progress call = 1) :
    next.set userID = record window (reading call)
      (setOf (serialDb userID limit window reading order db (userKey userID))) := by
  -- At its ZADD a call takes its serial turn: the stored set becomes the serial one.
  have hkept : state.set userID = (setOf (serialDb userID limit window reading order db
      (userKey userID))).removeRange 0 (reading call - window) := by
    ext member score
    rw [SortedSet.has_removeRange]
    constructor
    · intro hhas
      exact ⟨((hsim.set member score).mp hhas).1, hsim.pruned member score hhas call hstage⟩
    · rintro ⟨hserial, hkept⟩
      refine (hsim.set member score).mpr ⟨hserial, fun other hone hremoved => ?_⟩
      by_cases heq : other = call
      · exact heq ▸ hkept
      · have hle := (hok.1 hstage other heq hone).2.resolve_left hremoved
        unfold Prunes
        omega
  rw [h.set, hstage, hkept]
  rfl

theorem Simulates.add (hwindow : 0 < window)
    (hsim : Simulates userID limit window reading db state order)
    (h : StepSpec userID window reading state next call reply)
    (hok : Undisturbed userID limit window reading state call) (hstage : state.progress call = 1) :
    Simulates userID limit window reading db next (order ++ [call]) := by
  have hset := hsim.set_eq_record h hok hstage
  have hself : next.progress call = 2 := by rw [h.progress_self, hstage]
  have hfresh : call ∉ order := fun hmem => by
    have := (hsim.added call).mp hmem
    omega
  have hserial : setOf (serialDb userID limit window reading (order ++ [call]) db
      (userKey userID)) = next.set userID := by
    rw [serialDb_concat, setOf_allowRequest hsim.serialHoldsSet hwindow, hset]
  have hold : ∀ outcome ∈ serialVerdicts userID limit window reading order db,
      outcome.1 ≠ call :=
    fun outcome hmem heq => hfresh (heq ▸ mem_order_of_mem_serialVerdicts hmem)
  have hpruned : ∀ member score, (next.set userID).Has member score →
      ∀ other, next.progress other = 1 → ¬ Prunes window (reading other) score := by
    intro member score hhas other hone hprunes
    have hne : other ≠ call := by
      rintro rfl
      omega
    rw [h.progress_other hne] at hone
    rw [h.set, hstage] at hhas
    rcases SortedSet.has_insert.mp hhas with ⟨-, rfl⟩ | ⟨-, hold⟩
    · have hlt := (hok.1 hstage other hne hone).1
      unfold Prunes at hprunes
      omega
    · exact hsim.pruned member score hold other hone hprunes
  refine ⟨h.holdsSet, ?_, ?_, fun other => ?_, fun member score => ?_, hpruned, ?_, ?_⟩
  · rw [serialDb_concat]
    exact holdsSet_allowRequest hsim.serialHoldsSet
  · exact List.nodup_append.mpr ⟨hsim.nodup, List.nodup_singleton call, by
      rintro other hother _ hmem rfl
      exact hfresh (List.mem_singleton.mp hmem ▸ hother)⟩
  · rw [List.mem_append, List.mem_singleton, hsim.added]
    by_cases heq : other = call
    · rw [heq, hself]
      simp
    · rw [h.progress_other heq]
      simp [heq]
  · rw [hserial]
    exact ⟨fun hhas => ⟨hhas, fun other hone _ => hpruned member score hhas other hone⟩,
      fun hhas => hhas.1⟩
  · intro outcome hmem hwaiting
    rw [serialVerdicts_concat, List.mem_append, List.mem_singleton] at hmem
    rcases hmem with hmem | rfl
    · exact hsim.waiting_other h hok hmem (hold outcome hmem) hwaiting
    · rw [hset]
      exact allowRequest_verdict hsim.serialHoldsSet
  · intro outcome hmem count hcounted
    rw [serialVerdicts_concat, List.mem_append, List.mem_singleton] at hmem
    rcases hmem with hmem | rfl
    · exact hsim.counted outcome hmem count (h.counted_other (hold outcome hmem) ▸ hcounted)
    · have hthree : 3 ≤ next.progress call := Race.three_le_of_counted hcounted
      omega

theorem Simulates.count (hsim : Simulates userID limit window reading db state order)
    (h : StepSpec userID window reading state next call reply) (hstage : 2 ≤ state.progress call) :
    Simulates userID limit window reading db next order := by
  -- ZCARD and EXPIRE leave the set as it is; ZCARD reads the size the serial turn left.
  have hset : next.set userID = state.set userID := by
    rw [h.set]
    match state.progress call, hstage with
    | _ + 2, _ => rfl
  have hself : 3 ≤ next.progress call := by
    rw [h.progress_self]
    omega
  refine ⟨h.holdsSet, hsim.serialHoldsSet, hsim.nodup, fun other => ?_, fun member score => ?_,
    fun member score hhas other hone => ?_, fun outcome hmem hwaiting => ?_,
    fun outcome hmem count hcounted => ?_⟩
  · rw [hsim.added]
    by_cases heq : other = call
    · rw [heq]
      omega
    · rw [h.progress_other heq]
  · rw [hset, hsim.set]
    refine and_congr_right fun _ => forall_congr' fun other => ?_
    by_cases heq : other = call
    · rw [heq]
      have hone : state.progress call ≠ 1 ∧ next.progress call ≠ 1 := by omega
      simp [hone]
    · rw [h.progress_other heq, h.replies_other heq]
  · have hne : other ≠ call := by
      rintro rfl
      omega
    exact hsim.pruned member score (hset ▸ hhas) other (h.progress_other hne ▸ hone)
  · have hne : outcome.1 ≠ call := fun heq => by
      rw [heq] at hwaiting
      omega
    rw [h.progress_other hne] at hwaiting
    rw [hset]
    exact hsim.waiting outcome hmem hwaiting
  · by_cases heq : outcome.1 = call
    · rw [heq, h.counted_self] at hcounted
      split at hcounted
      · next htwo =>
          obtain rfl := Option.some.inj hcounted
          exact hsim.waiting outcome hmem (heq ▸ htwo)
      · exact hsim.counted outcome hmem count (heq ▸ hcounted)
    · exact hsim.counted outcome hmem count (h.counted_other heq ▸ hcounted)

theorem Simulates.step (hwindow : 0 < window)
    (hsim : Simulates userID limit window reading db state order)
    (h : StepSpec userID window reading state next call reply)
    (hok : Undisturbed userID limit window reading state call) :
    ∃ order, Simulates userID limit window reading db next order := by
  match hstage : state.progress call with
  | 0 => exact ⟨order, hsim.prune h hok hstage⟩
  | 1 => exact ⟨order ++ [call], hsim.add hwindow h hok hstage⟩
  | stage + 2 => exact ⟨order, hsim.count h (by omega)⟩

theorem race_ne_error (hwindow : 0 < window) (hset : HoldsSet (db (userKey userID)))
    {schedule : List Call}
    (hrun : (race userID window reading).run (Race.start db) schedule = some state)
    (other : Call) (error : Error) : .error error ∉ state.replies other := by
  have hboth : HoldsSet (state.db (userKey userID)) ∧
      ∀ other error, .error error ∉ state.replies other := by
    refine (race userID window reading).run_invariant (I := fun state =>
      HoldsSet (state.db (userKey userID)) ∧ ∀ other error, .error error ∉ state.replies other)
      ⟨hset, by simp [Race.start]⟩ ?_ hrun
    rintro previous call next ⟨hholds, hnone⟩ hstep
    obtain ⟨reply, hspec⟩ := race_step_spec hwindow hholds hstep
    refine ⟨hspec.holdsSet, fun other error => ?_⟩
    by_cases heq : other = call
    · rw [heq, hspec.replies, Function.update_self, List.mem_append, List.mem_singleton, not_or]
      exact ⟨hnone call error, (hspec.reply_ne_error error).symm⟩
    · rw [hspec.replies_other heq]
      exact hnone other error
  exact hboth.2 other error

/--
Every run of undisturbed steps in which all calls have returned agrees with
the serial order of their ZADD commands.
-/
theorem serializable_of_undisturbed (limit : Int) (schedule : List Call) (hwindow : 0 < window)
    (hset : HoldsSet (db (userKey userID)))
    (hrun : (race userID window reading).run (Race.start db) schedule = some state)
    (hfinished : ∀ call, state.progress call = 4)
    (hok : (race userID window reading).Along (Undisturbed userID limit window reading)
      (Race.start db) schedule) :
    Serializable userID limit window reading db state := by
  obtain ⟨order, hsim⟩ : ∃ order, Simulates userID limit window reading db state order := by
    refine (race userID window reading).run_invariant_along
      (I := fun state => ∃ order, Simulates userID limit window reading db state order)
      ⟨[], Simulates.init hset⟩ ?_ hrun hok
    rintro previous call next hundisturbed ⟨order, hsim⟩ hstep
    obtain ⟨reply, hspec⟩ := race_step_spec hwindow hsim.holdsSet hstep
    exact hsim.step hwindow hspec hundisturbed
  refine ⟨order, hsim.nodup, fun call => ?_, fun outcome hmem => ?_⟩
  · rw [hsim.added, hfinished call]
    decide
  · have hfour := hfinished outcome.1
    have hcounted := hsim.counted outcome hmem (countVal (state.replies outcome.1))
      (by simp [Race.counted, hfour])
    have hnone := firstError_eq_none (race_ne_error hwindow hset hrun outcome.1)
    rw [Race.returned, if_pos hfour, verdict, hnone, hcounted]

theorem serializable_two_calls :
    ∃ state, (race "alice" 10 fun call : Bool => if call then 2 else 1).run
        (Race.start fun _ => none) [false, true, false, true, true, false, true, false] =
          some state ∧
      Serializable "alice" 3 10 (fun call : Bool => if call then 2 else 1)
        (fun _ => none) state :=
  ⟨_, rfl, serializable_of_undisturbed 3 [false, true, false, true, true, false, true, false]
    (by decide) (by trivial) rfl (by decide) (by decide)⟩

end Simulation

/-! ## Two calls that reject each other -/

/-- Both calls add their entries before either counts, and at limit one both are rejected. -/
theorem not_serializable_two_calls :
    ∃ state, (race "alice" 10 fun call : Bool => if call then 2 else 1).run
        (Race.start fun _ => none) [false, true, false, true, false, true, false, true] =
          some state ∧
      (∀ call, state.progress call = 4) ∧
      ¬ Serializable "alice" 1 10 (fun call : Bool => if call then 2 else 1)
        (fun _ => none) state := by
  refine ⟨_, rfl, by decide, ?_⟩
  rintro ⟨order, -, hall, hagree⟩
  cases order with
  | nil => exact absurd (hall true) (by simp)
  | cons first order =>
      have hfirst := hagree _ List.mem_cons_self
      cases first <;> exact absurd hfirst (by decide)

end NexPulse.RateLimit
