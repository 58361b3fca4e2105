import NexPulse.Aggregate.Consumer

/-!
# Crashes and restarts

A crash is harmless when what the dead iteration leaves unexecuted is exactly
what the messages from the committed offset on call for: then the restarted
process repeats nothing and skips nothing.  The offsets are committed by a
timer that does not wait for Redis, so crashes are not harmless in general.
-/

namespace NexPulse.Aggregate

open NexPulse.Foundation NexPulse.Foundation.Redis NexPulse.RateLimit NexPulse.Ingest

variable {Body Value : Type*} {codec : Codec Body Value} {log : List (Message Value)}

/-- The commands that no one has executed once Redis is done with a dead iteration. -/
def Consumer.abandoned (codec : Codec Body Value) (state : Consumer Value) (received : Nat) :
    List (Nat × Command) :=
  state.tag ((state.loop.point.pending codec).drop
    (state.loop.point.inFlight.take received).length)

def Harmless (codec : Codec Body Value) (log : List (Message Value)) (state : Consumer Value) :
    Action → Prop
  | .crash received =>
      state.abandoned codec received = dueBetween codec log state.committed state.position
  | _ => True

instance (state : Consumer Value) (action : Action) :
    Decidable (Harmless codec log state action) :=
  match action with
  | .crash received => inferInstanceAs (Decidable
      (state.abandoned codec received = dueBetween codec log state.committed state.position))
  | .read | .readError | .work _ | .flush _ => .isTrue trivial

structure Transparent (codec : Codec Body Value) (log : List (Message Value)) (db : Db)
    (state : Consumer Value) : Prop where
  reading : state.Reading log
  planned : state.planned codec = dueBetween codec log 0 state.position
  db_eq : state.db = (execAll 0 (state.applied.map Prod.snd) db).2

theorem transparent_start (db : Db) : Transparent codec log db (Consumer.start db) where
  reading := Consumer.reading_start log db
  planned := by simp [Consumer.planned, Consumer.start, Consumer.tag, Loop.init, Point.pending]
  db_eq := rfl

theorem Point.inFlight_pending (point : Point Value) (received : Nat) :
    point.inFlight.take received ++
        (point.pending codec).drop (point.inFlight.take received).length =
      point.pending codec := by
  cases point with
  | executing message queued replies =>
      rw [Point.inFlight, Point.pending]
      exact List.prefix_iff_eq_append.mp (List.take_prefix received queued)
  | _ => simp [Point.inFlight]

theorem Consumer.tag_append (state : Consumer Value) (first second : List Command) :
    state.tag (first ++ second) = state.tag first ++ state.tag second :=
  List.map_append

theorem Consumer.snd_tag (state : Consumer Value) (commands : List Command) :
    (state.tag commands).map Prod.snd = commands := by
  simp [tag, Function.comp_def]

theorem Transparent.crash {db : Db} {state : Consumer Value} {received : Nat}
    (h : Transparent codec log db state)
    (hharmless : Harmless codec log state (.crash received)) :
    Transparent codec log db (state.crash received) where
  reading := h.reading.step (Stepped.crash received : Stepped codec log state _ _)
  planned := by
    have hplanned := h.planned
    rw [Consumer.planned, ← state.loop.point.inFlight_pending received, Consumer.tag_append,
      ← dueBetween_append (Nat.zero_le _) h.reading.committed_le, ← List.append_assoc] at hplanned
    have hkept := List.append_cancel_right (hplanned.trans (congrArg _ hharmless.symm))
    simpa [Consumer.planned, Consumer.crash, Loop.init, Point.pending, Consumer.tag] using hkept
  db_eq := by
    simp only [Consumer.crash, h.db_eq, List.map_append, Consumer.snd_tag, execAll_append]

theorem Transparent.step {db : Db} {state next : Consumer Value} {action : Action}
    (h : Transparent codec log db state) (hharmless : Harmless codec log state action)
    (hreplied : ∀ outcome, action = .work outcome → outcome = .replied)
    (hstep : Stepped codec log state action next) : Transparent codec log db next := by
  have hreading := h.reading.step hstep
  cases hstep with
  | read message hhead hfound =>
      refine ⟨hreading, ?_, h.db_eq⟩
      rw [Consumer.planned_read codec hhead hfound, h.planned, ← dueBetween_succ _ (Nat.zero_le _)]
  | readError => exact h
  | work outcome loop after hworked =>
      obtain rfl := hreplied outcome rfl
      refine ⟨hreading, ?_, ?_⟩
      · rw [Consumer.planned_work hworked (Point.kept_replied _), h.planned]
      · rw [hworked.db_eq, h.db_eq, List.map_append, Consumer.snd_tag, execAll_append]
  | flush offset habove hbelow => exact ⟨hreading, h.planned, h.db_eq⟩
  | crash received => exact h.crash hharmless

section Run

variable {db : Db} {labels : List Action} {state : Consumer Value}

theorem transparent_of_run
    (hrun : (consumer codec log).run (Consumer.start db) labels = some state)
    (hredis : ∀ outcome, .work outcome ∈ labels → outcome = .replied)
    (hcrash : (consumer codec log).Along (Harmless codec log) (Consumer.start db) labels) :
    Transparent codec log db state := by
  have hreplied : (consumer codec log).Along
      (fun _ action => ∀ outcome, action = .work outcome → outcome = .replied)
      (Consumer.start db) labels := by
    refine System.along_of_forall_mem _ ?_ _
    rintro _ hmem _ outcome rfl
    exact hredis outcome hmem
  refine System.run_invariant_along _ (transparent_start db) ?_ hrun (hcrash.and _ hreplied)
  intro state action next hok htransparent hstep
  exact htransparent.step hok.1 hok.2 (stepped_of_step hstep)

theorem harmless_of_no_crash (h : ∀ received, .crash received ∉ labels) (state : Consumer Value) :
    (consumer codec log).Along (Harmless codec log) state labels := by
  refine System.along_of_forall_mem _ ?_ state
  intro action hmem state
  cases action with
  | crash received => exact absurd hmem (h received)
  | _ => trivial

theorem Transparent.applied_of_consumed (h : Transparent codec log db state)
    (hconsumed : state.Consumed log) :
    state.applied = dueBetween codec log 0 log.length := by
  have hplanned := h.planned
  rw [Consumer.planned, hconsumed.1, hconsumed.2] at hplanned
  simpa [Point.pending, Consumer.tag] using hplanned

/--
When every crash of a run is harmless and Redis answers every command, the
fully consumed log has been applied message by message, each once, and the
database is that of any run without crashes.
-/
theorem crashes_transparent {plain : List Action} {crashFree : Consumer Value}
    (hrun : (consumer codec log).run (Consumer.start db) labels = some state)
    (hredis : ∀ outcome, .work outcome ∈ labels → outcome = .replied)
    (hcrash : (consumer codec log).Along (Harmless codec log) (Consumer.start db) labels)
    (hconsumed : state.Consumed log)
    (hplain : (consumer codec log).run (Consumer.start db) plain = some crashFree)
    (hplainRedis : ∀ outcome, .work outcome ∈ plain → outcome = .replied)
    (hplainCrash : ∀ received, .crash received ∉ plain)
    (hplainConsumed : crashFree.Consumed log) :
    state.applied = dueBetween codec log 0 log.length ∧ state.db = crashFree.db := by
  have htransparent := transparent_of_run hrun hredis hcrash
  have hfree := transparent_of_run hplain hplainRedis (harmless_of_no_crash hplainCrash _)
  refine ⟨htransparent.applied_of_consumed hconsumed, ?_⟩
  rw [htransparent.db_eq, hfree.db_eq, htransparent.applied_of_consumed hconsumed,
    hfree.applied_of_consumed hplainConsumed]

def iteration : List Action := List.replicate 6 (.work .replied)

theorem crashes_transparent_before_commit :
    ∃ state plain, (consumer loginCodec [loginMessage]).run (Consumer.start fun _ => none)
        ([.read, .work .replied, .crash 0, .read] ++ iteration ++ [.flush 1, .crash 0]) =
          some state ∧
      (consumer loginCodec [loginMessage]).run (Consumer.start fun _ => none)
        (.read :: iteration) = some plain ∧
      state.applied = dueBetween loginCodec [loginMessage] 0 1 ∧ state.db = plain.db := by
  have hrun : (consumer loginCodec [loginMessage]).run (Consumer.start fun _ => none)
    ([.read, .work .replied, .crash 0, .read] ++ iteration ++ [.flush 1, .crash 0]) = some _ := rfl
  have hplain : (consumer loginCodec [loginMessage]).run (Consumer.start fun _ => none)
    (.read :: iteration) = some _ := rfl
  refine ⟨_, _, hrun, hplain, crashes_transparent hrun ?_ ?_ ⟨rfl, rfl⟩ hplain ?_ ?_ ⟨rfl, rfl⟩⟩
  · simp [iteration]
  · decide
  · simp [iteration]
  · simp [iteration]

/--
A crash after the timer has committed the offset and before Redis has executed
the pipeline loses the event; a crash after the pipeline and before the commit
counts it twice.
-/
theorem crashes_not_transparent :
    ∃ lost twice plain,
      (consumer loginCodec [loginMessage]).run (Consumer.start fun _ => none)
        [.read, .flush 1, .crash 0] = some lost ∧ lost.Consumed [loginMessage] ∧
      (consumer loginCodec [loginMessage]).run (Consumer.start fun _ => none)
        (.read :: iteration ++ [.crash 0, .read] ++ iteration) = some twice ∧
      twice.Consumed [loginMessage] ∧
      (consumer loginCodec [loginMessage]).run (Consumer.start fun _ => none)
        (.read :: iteration) = some plain ∧ plain.Consumed [loginMessage] ∧
      (lost.db (typeKey "login")).isSome = false ∧
      (plain.db (typeKey "login")).isSome = true ∧
      (setOf (lost.db leaderboardKey)).score? "alice" = none ∧
      (setOf (plain.db leaderboardKey)).score? "alice" = some 1 ∧
      (setOf (twice.db leaderboardKey)).score? "alice" = some 2 := by
  refine ⟨_, _, _, rfl, ⟨rfl, rfl⟩, rfl, ⟨rfl, rfl⟩, rfl, ⟨rfl, rfl⟩, ?_⟩
  decide

end Run

end NexPulse.Aggregate
