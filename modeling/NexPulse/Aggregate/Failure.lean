import NexPulse.Aggregate.Ledger

/-!
# Redis failures

When a pipeline fails, the loop goes on to the next message as if it had
succeeded.  Without crashes, what Redis has carried out is always a sublist of
what the consumed messages call for; it is all of it exactly when no failure has
dropped a command and no key has held a value of another type.
-/

namespace NexPulse.Aggregate

open NexPulse.Foundation NexPulse.Foundation.Redis NexPulse.RateLimit NexPulse.Ingest

variable {Body Value : Type*}

/-- What Redis has carried out for the message at an offset. -/
def Consumer.appliedAt (initial : Db) (state : Consumer Value) (offset : Nat) : List Command :=
  ((carriedOut 0 state.applied initial).filter fun entry => entry.1 = offset).map Prod.snd

def parsed? (codec : Codec Body Value) (log : List (Message Value)) (offset : Nat) :
    Option Event :=
  log[offset]?.bind fun message => codec.unmarshal message.value

def Consumer.fullyApplied (codec : Codec Body Value) (log : List (Message Value)) (initial : Db)
    (state : Consumer Value) (offset : Nat) : Bool :=
  match parsed? codec log offset with
  | some event => state.appliedAt initial offset = updates event
  | none => false

/-- No event is lost or half-applied, and the processed counter counts the applied ones. -/
structure NoneLost (codec : Codec Body Value) (log : List (Message Value)) (initial : Db)
    (state : Consumer Value) : Prop where
  -- Every offset below the position may be committed.
  applied : ∀ offset < state.position, ∀ event, parsed? codec log offset = some event →
    state.appliedAt initial offset = updates event
  notHalf : ∀ offset event, parsed? codec log offset = some event →
    state.appliedAt initial offset = [] ∨ state.appliedAt initial offset = updates event
  counted : state.loop.metrics.eventsProcessed =
    (List.range state.position).countP (state.fullyApplied codec log initial)
  stored : ∀ figure : Figure, figure.read state.db =
    figure.read initial + figure.raised codec (log.take state.position)

/-- The action drops no command of a pipeline and executes none on a key of another type. -/
def Complete (state : Consumer Value) : Action → Prop
  | .work outcome => state.loop.point.Kept outcome ∧
      ∀ command ∈ state.loop.point.executes outcome, command.Fits state.db
  | _ => True

instance (state : Consumer Value) (action : Action) : Decidable (Complete state action) :=
  match action with
  | .work outcome => inferInstanceAs (Decidable (state.loop.point.Kept outcome ∧ _))
  | .read | .readError | .flush _ | .crash _ => .isTrue trivial

/-! ## Tagged lists -/

theorem eq_of_sublist_of_filter {Entry : Type*} [DecidableEq Entry]
    {kept all : List (Nat × Entry)} (hsub : kept.Sublist all)
    (h : ∀ entry ∈ all, (kept.filter fun other => other.1 = entry.1) =
      all.filter fun other => other.1 = entry.1) : kept = all := by
  -- Equal counts make the two lists permutations, and a sublist of full length is everything.
  refine hsub.eq_of_length (List.Perm.length_eq (List.perm_iff_count.mpr fun entry => ?_))
  by_cases hmem : entry ∈ all
  · rw [← List.count_filter (p := fun other => other.1 = entry.1) (by simp), h entry hmem,
      List.count_filter (by simp)]
  · rw [List.count_eq_zero_of_not_mem hmem,
      List.count_eq_zero_of_not_mem fun hkept => hmem (hsub.subset hkept)]

section Due

variable {codec : Codec Body Value} {log : List (Message Value)}

theorem filter_due (offset other : Nat) :
    (due codec log other).filter (fun entry => entry.1 = offset) =
      if other = offset then due codec log offset else [] := by
  split
  · next heq =>
      subst heq
      simp [due]
  · next hne => simp [due, hne]

theorem filter_dueBetween (last offset : Nat) :
    (dueBetween codec log 0 last).filter (fun entry => entry.1 = offset) =
      if offset < last then due codec log offset else [] := by
  induction last with
  | zero => simp
  | succ last ih =>
      rw [dueBetween_succ _ (Nat.zero_le _), List.filter_append, ih, filter_due]
      rcases Nat.lt_trichotomy offset last with hlt | rfl | hgt
      · simp [hlt, Nat.lt_succ_of_lt hlt, hlt.ne']
      · simp
      · simp [hgt.ne, Nat.not_lt.mpr hgt.le, Nat.not_lt.mpr (Nat.succ_le_of_lt hgt)]

theorem updatesAt_of_parsed {offset : Nat} {event : Event}
    (h : parsed? codec log offset = some event) : updatesAt codec log offset = updates event := by
  obtain ⟨message, hmessage, hparsed⟩ := Option.bind_eq_some_iff.mp h
  rw [updatesAt_of_getElem? hmessage, updatesOf, hparsed]

theorem parsed_of_mem_due {offset : Nat} {entry : Nat × Command}
    (h : entry ∈ due codec log offset) : ∃ event, parsed? codec log offset = some event := by
  simp only [due, updatesAt, updatesOf] at h
  cases hmessage : log[offset]? with
  | none => simp [hmessage] at h
  | some message =>
      cases hparsed : codec.unmarshal message.value with
      | none => simp [hmessage, hparsed] at h
      | some event => exact ⟨event, by simp [parsed?, hmessage, hparsed]⟩

theorem Consumer.filter_carriedOut (initial : Db) (state : Consumer Value) (offset : Nat) :
    (carriedOut 0 state.applied initial).filter (fun entry => entry.1 = offset) =
      (state.appliedAt initial offset).map fun command => (offset, command) := by
  rw [appliedAt, List.map_map]
  refine (List.map_id _).symm.trans (List.map_congr_left fun entry hentry => ?_)
  have htag : entry.1 = offset := by simpa using (List.mem_filter.mp hentry).2
  exact Prod.ext htag rfl

theorem update_of_mem_dueBetween {last : Nat} {entry : Nat × Command}
    (h : entry ∈ dueBetween codec log 0 last) : Update entry.2 := by
  have hmem := List.mem_map_of_mem (f := Prod.snd) h
  rw [map_snd_dueBetween_take] at hmem
  obtain ⟨message, -, hcommand⟩ := List.mem_flatMap.mp hmem
  exact update_of_mem_updatesOf hcommand

end Due

/-! ## Runs without crashes -/

section Run

variable {codec : Codec Body Value} {log : List (Message Value)} {initial : Db}
  {labels : List Action} {state next : Consumer Value} {action : Action}

theorem carriedOut_executes (state : Consumer Value) (outcome : Outcome) :
    carriedOut 0 (state.tag (state.loop.point.executes outcome)) state.db =
        state.tag (state.loop.point.executes outcome) ↔
      ∀ command ∈ state.loop.point.executes outcome, command.Fits state.db := by
  have hcases : state.loop.point.executes outcome = [] ∨
      ∃ command, state.loop.point.executes outcome = [command] := by
    unfold Point.executes
    split
    · next command queued replies => cases outcome <;> simp
    · exact .inl rfl
  rcases hcases with hnone | ⟨command, hone⟩
  · simp [hnone, Consumer.tag, carriedOut]
  · rw [hone]
    exact (carriedOut_singleton 0 state.db (state.position - 1, command)).trans
      List.forall_mem_singleton.symm

structure Tracked (codec : Codec Body Value) (log : List (Message Value)) (initial : Db)
    (labels : List Action) (state : Consumer Value) : Prop where
  reading : state.Reading log
  db_eq : state.db = (execAll 0 (state.applied.map Prod.snd) initial).2
  planned : (state.planned codec).Sublist (dueBetween codec log 0 state.position)
  complete : (consumer codec log).Along Complete (Consumer.start initial) labels ↔
    state.planned codec = dueBetween codec log 0 state.position ∧
      carriedOut 0 state.applied initial = state.applied
  counted : state.loop.metrics.eventsProcessed + state.loop.point.uncounted codec =
    (List.range state.position).countP fun offset => (parsed? codec log offset).isSome

theorem tracked_start (initial : Db) : Tracked codec log initial [] (Consumer.start initial) where
  reading := Consumer.reading_start log initial
  db_eq := rfl
  planned := by
    simp [Consumer.planned, Consumer.start, Consumer.tag, Loop.init, Point.pending]
  complete := by
    simp [Consumer.planned, Consumer.start, Consumer.tag, Loop.init, Point.pending, System.Along,
      carriedOut]
  counted := rfl

theorem Consumer.planned_work_dropped {outcome : Outcome} {loop : Loop Value} {after : Db}
    (hworked : Worked codec outcome state.loop loop state.db after)
    (hdropped : ¬ state.loop.point.Kept outcome) :
    let next : Consumer Value := { state with
      loop := loop
      db := after
      applied := state.applied ++ state.tag (state.loop.point.executes outcome) }
    (next.planned codec).Sublist (state.planned codec) ∧
      (next.planned codec).length < (state.planned codec).length := by
  obtain ⟨hsub, hne⟩ := hworked.dropped hdropped
  have hshorter : (state.loop.point.executes outcome ++ loop.point.pending codec).length <
      (state.loop.point.pending codec).length :=
    lt_of_le_of_ne hsub.length_le fun hlength => hne (hsub.eq_of_length hlength)
  constructor
  · simp only [planned, tag, List.append_assoc, ← List.map_append]
    exact (List.Sublist.refl _).append (hsub.map _)
  · simp only [planned, tag, List.length_append, List.length_map] at hshorter ⊢
    omega

theorem Tracked.step (h : Tracked codec log initial labels state)
    (hrun : (consumer codec log).run (Consumer.start initial) labels = some state)
    (hcrash : ∀ received, action ≠ .crash received)
    (hstep : Stepped codec log state action next) :
    Tracked codec log initial (labels ++ [action]) next := by
  have hreading := h.reading.step hstep
  have halong : (consumer codec log).Along Complete (Consumer.start initial)
        (labels ++ [action]) ↔
      (state.planned codec = dueBetween codec log 0 state.position ∧
        carriedOut 0 state.applied initial = state.applied) ∧ Complete state action := by
    rw [System.along_concat _ hrun, h.complete]
  cases hstep with
  | read message hhead hfound =>
      have hplanned := Consumer.planned_read codec hhead hfound
      refine ⟨hreading, h.db_eq, ?_, ?_, ?_⟩
      · rw [hplanned, dueBetween_succ _ (Nat.zero_le _)]
        exact h.planned.append (List.Sublist.refl _)
      · rw [halong, hplanned, dueBetween_succ _ (Nat.zero_le _), List.append_cancel_right_eq]
        exact and_iff_left trivial
      · have hcounted := h.counted
        have hparsed : parsed? codec log state.position = codec.unmarshal message.value := by
          simp [parsed?, hfound]
        rw [hhead] at hcounted
        rw [List.range_succ, List.countP_append, ← hcounted]
        simp [Point.uncounted, hparsed]
  | readError =>
      exact ⟨hreading, h.db_eq, h.planned, halong.trans (and_iff_left trivial), h.counted⟩
  | work outcome loop after hworked =>
      have hcounted := hworked.counted.trans h.counted
      have hdb : after = (execAll 0
          ((state.applied ++ state.tag (state.loop.point.executes outcome)).map Prod.snd)
          initial).2 := by
        rw [hworked.db_eq, h.db_eq, List.map_append, Consumer.snd_tag, execAll_append]
      by_cases hkept : state.loop.point.Kept outcome
      · have hplanned := Consumer.planned_work hworked hkept
        refine ⟨hreading, hdb, ?_, ?_, hcounted⟩
        · rw [hplanned]
          exact h.planned
        · have hfits : Complete state (.work outcome) ↔
              carriedOut 0 (state.tag (state.loop.point.executes outcome)) state.db =
                state.tag (state.loop.point.executes outcome) :=
            (and_iff_right hkept).trans (carriedOut_executes state outcome).symm
          rw [halong, hplanned, carriedOut_append_eq_iff, ← h.db_eq, and_assoc, hfits]
      · obtain ⟨hsub, hlength⟩ := Consumer.planned_work_dropped hworked hkept
        refine ⟨hreading, hdb, hsub.trans h.planned, ?_, hcounted⟩
        refine iff_of_false (fun hcomplete => hkept (halong.mp hcomplete).2.1) fun heq => ?_
        have := h.planned.length_le
        rw [heq.1] at hlength
        exact absurd hlength (not_lt.mpr this)
  | flush offset habove hbelow =>
      exact ⟨hreading, h.db_eq, h.planned, halong.trans (and_iff_left trivial), h.counted⟩
  | crash received => exact absurd rfl (hcrash received)

theorem tracked_of_run
    (hrun : (consumer codec log).run (Consumer.start initial) labels = some state)
    (hcrash : ∀ received, .crash received ∉ labels) : Tracked codec log initial labels state := by
  refine System.run_induction _
    (P := fun labels state => (∀ received, .crash received ∉ labels) →
      Tracked codec log initial labels state)
    (fun _ => tracked_start initial) ?_ hrun hcrash
  intro labels state action next hprevious ih hstep hcrash
  refine (ih fun received hmem => hcrash received (List.mem_append_left _ hmem)).step hprevious ?_
    (stepped_of_step hstep)
  rintro received rfl
  exact hcrash received (List.mem_append_right _ (List.mem_singleton_self _))

/-! ## The loop head -/

theorem Tracked.complete_iff_applied (h : Tracked codec log initial labels state)
    (hhead : state.loop.point = .head) :
    (consumer codec log).Along Complete (Consumer.start initial) labels ↔
      state.applied = dueBetween codec log 0 state.position ∧
        carriedOut 0 state.applied initial = state.applied := by
  rw [h.complete, Consumer.planned, hhead]
  simp [Point.pending, Consumer.tag]

theorem Tracked.applied_sublist (h : Tracked codec log initial labels state) :
    state.applied.Sublist (dueBetween codec log 0 state.position) :=
  (List.sublist_append_left _ _).trans h.planned

theorem Tracked.counted_head (h : Tracked codec log initial labels state)
    (hhead : state.loop.point = .head) :
    state.loop.metrics.eventsProcessed =
      (List.range state.position).countP fun offset => (parsed? codec log offset).isSome := by
  have hcounted := h.counted
  rwa [hhead, Point.uncounted, Nat.add_zero] at hcounted

theorem appliedAt_of_applied (happlied : state.applied = dueBetween codec log 0 state.position)
    (hcarried : carriedOut 0 state.applied initial = state.applied) (offset : Nat) :
    state.appliedAt initial offset =
      if offset < state.position then updatesAt codec log offset else [] := by
  rw [Consumer.appliedAt, hcarried, happlied, filter_dueBetween]
  split <;> simp [due, Function.comp_def]

theorem Tracked.stored (h : Tracked codec log initial labels state)
    (happlied : state.applied = dueBetween codec log 0 state.position)
    (hcarried : carriedOut 0 state.applied initial = state.applied) (figure : Figure) :
    figure.read state.db = figure.read initial + figure.raised codec (log.take state.position) := by
  have hupdates : ∀ entry ∈ state.applied, Update entry.2 :=
    fun entry hmem => update_of_mem_dueBetween (h.applied_sublist.subset hmem)
  have hcommands : ∀ command ∈ state.applied.map Prod.snd, Update command := by
    intro command hmem
    obtain ⟨entry, hentry, rfl⟩ := List.mem_map.mp hmem
    exact hupdates entry hentry
  rw [Figure.read, h.db_eq, figure.tally.read_carriedOut hupdates, hcarried,
    figure.sum_eq_count hcommands, happlied, map_snd_dueBetween_take, figure.count_raise]
  rfl

theorem noneLost_of_applied (h : Tracked codec log initial labels state)
    (hhead : state.loop.point = .head)
    (happlied : state.applied = dueBetween codec log 0 state.position)
    (hcarried : carriedOut 0 state.applied initial = state.applied) :
    NoneLost codec log initial state := by
  have happliedAt := appliedAt_of_applied happlied hcarried
  refine ⟨fun offset hlt event hparsed => ?_, fun offset event hparsed => ?_, ?_,
    h.stored happlied hcarried⟩
  · rw [happliedAt, if_pos hlt, updatesAt_of_parsed hparsed]
  · rw [happliedAt]
    split
    · exact .inr (updatesAt_of_parsed hparsed)
    · exact .inl rfl
  · rw [h.counted_head hhead]
    refine List.countP_congr fun offset hoffset => ?_
    rw [Consumer.fullyApplied]
    cases hparsed : parsed? codec log offset with
    | none => simp
    | some event =>
        simp [happliedAt, List.mem_range.mp hoffset, updatesAt_of_parsed hparsed]

theorem applied_of_noneLost (h : Tracked codec log initial labels state)
    (hnone : NoneLost codec log initial state) :
    state.applied = dueBetween codec log 0 state.position ∧
      carriedOut 0 state.applied initial = state.applied := by
  have hsub := carriedOut_sublist 0 state.applied initial
  have hcarried : carriedOut 0 state.applied initial =
      dueBetween codec log 0 state.position := by
    refine eq_of_sublist_of_filter (hsub.trans h.applied_sublist) fun entry hentry => ?_
    have hself : entry ∈ (dueBetween codec log 0 state.position).filter
        fun other => other.1 = entry.1 := List.mem_filter.mpr ⟨hentry, by simp⟩
    rw [filter_dueBetween] at hself ⊢
    split at hself
    · next hlt =>
        obtain ⟨event, hparsed⟩ := parsed_of_mem_due hself
        rw [if_pos hlt, state.filter_carriedOut, hnone.applied _ hlt event hparsed, due,
          updatesAt_of_parsed hparsed]
    · contradiction
  have happlied : state.applied = dueBetween codec log 0 state.position :=
    h.applied_sublist.antisymm (hcarried ▸ hsub)
  exact ⟨happlied, hcarried.trans happlied.symm⟩

/--
In a run without crashes that is back at the loop head, no event is lost or
half-applied and the processed counter is right exactly when no Redis failure
of the run has dropped a command of a pipeline, and no command was executed on a
key of another type.
-/
theorem noneLost_iff_complete
    (hrun : (consumer codec log).run (Consumer.start initial) labels = some state)
    (hcrash : ∀ received, .crash received ∉ labels) (hhead : state.loop.point = .head) :
    NoneLost codec log initial state ↔
      (consumer codec log).Along Complete (Consumer.start initial) labels := by
  have htracked := tracked_of_run hrun hcrash
  rw [htracked.complete_iff_applied hhead]
  exact ⟨applied_of_noneLost htracked,
    fun happlied => noneLost_of_applied htracked hhead happlied.1 happlied.2⟩

theorem noneLost_reply_lost :
    ∃ state, (consumer loginCodec [loginMessage]).run (Consumer.start fun _ => none)
        [.read, .work .replied, .work .replied, .work .replied, .work .replyLost, .work .replied,
          .work .replied, .work .replied] = some state ∧
      NoneLost loginCodec [loginMessage] (fun _ => none) state ∧
      (Figure.score "alice").read state.db = 1 := by
  have hrun : (consumer loginCodec [loginMessage]).run (Consumer.start fun _ => none)
    [.read, .work .replied, .work .replied, .work .replied, .work .replyLost, .work .replied,
      .work .replied, .work .replied] = some _ := rfl
  exact ⟨_, hrun, (noneLost_iff_complete hrun (by simp) rfl).mpr (by decide), by decide⟩

/-- On the second message Redis fails once INCR is executed: half an event, counted as processed. -/
theorem not_noneLost_prefix :
    ∃ state, (consumer loginCodec [loginMessage, loginMessage]).run (Consumer.start fun _ => none)
        (.read :: List.replicate 6 (.work .replied) ++
          [.read, .work .replied, .work .replied, .work .replyLost, .work .replied, .work .replied,
            .work .replied]) = some state ∧
      state.loop.point = .head ∧ state.loop.metrics.eventsProcessed = 2 ∧
      state.appliedAt (fun _ => none) 1 = [⟨typeKey "login", .incr⟩] ∧
      (Figure.counter "login").read state.db = 2 ∧ (Figure.score "alice").read state.db = 1 ∧
      ¬ NoneLost loginCodec [loginMessage, loginMessage] (fun _ => none) state := by
  refine ⟨_, rfl, rfl, rfl, by decide, by decide, by decide, fun hnone => ?_⟩
  exact absurd (hnone.stored (.score "alice")) (by decide)

end Run

end NexPulse.Aggregate
