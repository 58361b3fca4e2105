import NexPulse.Query.HubRegistry

/-!
# Writes that do not return

A call of WriteMessage takes time: it returns once its peer reads, and blocks
while the peer has stopped reading and the buffers are full.  No write deadline
is set on the connections.  The pub/sub goroutine takes a message from Redis
and offers it on `broadcast` until Run receives it.
-/

namespace NexPulse.Query

open NexPulse.Foundation

structure Traffic (Conn Message : Type*) where
  hub : Hub Conn Message
  -- The client of a call of WriteMessage that has not returned.
  writing : Option Conn
  -- The peers that have stopped reading and whose buffers are full.
  stalled : Finset Conn
  -- The message that the pub/sub goroutine offers.
  offered : Option Message

inductive Progress (Conn Message : Type*) where
  | upgrade (client : Conn)
  | register (client : Conn)
  | readError (client : Conn)
  | unregister (client : Conn)
  | publish (message : Message)
  | receive (message : Message)
  -- The range loop comes to a client and calls WriteMessage.
  | visit (client : Conn)
  | written (client : Conn) (succeeds : Bool)
  | broadcasted
  | stall (client : Conn)
  | resume (client : Conn)
  deriving DecidableEq

variable {Conn Message : Type*}

def Progress.ofRun : Progress Conn Message → Bool
  | .register _ | .unregister _ | .receive _ | .visit _ | .written .. | .broadcasted => true
  | .upgrade _ | .readError _ | .publish _ | .stall _ | .resume _ => false

def Progress.event? : Progress Conn Message → Option (Event Conn Message)
  | .upgrade client => some (.upgrade client)
  | .register client => some (.register client)
  | .readError client => some (.readError client)
  | .unregister client => some (.unregister client)
  | .receive message => some (.broadcast message)
  | .written client succeeds => some (.write client succeeds)
  | .broadcasted => some .broadcasted
  | .publish _ | .visit _ | .stall _ | .resume _ => none

variable [DecidableEq Conn]

namespace Traffic

def start : Traffic Conn Message := ⟨.newHub, none, ∅, none⟩

def Enabled (state : Traffic Conn Message) : Progress Conn Message → Prop
  | .upgrade client => state.hub.Enabled (.upgrade client)
  | .register client => state.hub.Enabled (.register client)
  | .readError client => state.hub.Enabled (.readError client)
  | .unregister client => state.hub.Enabled (.unregister client)
  | .publish _ => state.offered = none
  | .receive message => state.hub.AtSelect ∧ state.offered = some message
  | .visit client => state.writing = none ∧ ¬ state.hub.AtSelect ∧ client ∈ state.hub.remaining
  | .written client _ => state.writing = some client ∧ client ∉ state.stalled
  | .broadcasted => state.writing = none ∧ state.hub.Enabled .broadcasted
  | .stall client => client ∉ state.stalled
  | .resume client => client ∈ state.stalled

instance [DecidableEq Message] (state : Traffic Conn Message) (label : Progress Conn Message) :
    Decidable (state.Enabled label) := by
  cases label <;> simp only [Enabled] <;> infer_instance

def next (state : Traffic Conn Message) : Progress Conn Message → Traffic Conn Message
  | .upgrade client => { state with hub := state.hub.next (.upgrade client) }
  | .register client => { state with hub := state.hub.next (.register client) }
  | .readError client => { state with hub := state.hub.next (.readError client) }
  | .unregister client => { state with hub := state.hub.next (.unregister client) }
  | .publish message => { state with offered := some message }
  | .receive message => { state with hub := state.hub.next (.broadcast message), offered := none }
  | .visit client => { state with writing := some client }
  | .written client succeeds =>
      { state with hub := state.hub.next (.write client succeeds), writing := none }
  | .broadcasted => { state with hub := state.hub.next .broadcasted }
  | .stall client => { state with stalled := insert client state.stalled }
  | .resume client => { state with stalled := state.stalled.erase client }

end Traffic

def traffic [DecidableEq Message] : System (Traffic Conn Message) (Progress Conn Message) :=
  System.guarded Traffic.Enabled Traffic.next

namespace Traffic

/-- Run cannot take a step until a stalled peer acts, or someone else moves first. -/
def Stuck (state : Traffic Conn Message) : Prop :=
  ∀ label : Progress Conn Message, label.ofRun → ¬ state.Enabled label

omit [DecidableEq Conn] in
/-- Someone waits for Run: at one of its channels, or for the message being broadcast. -/
def Waiting (state : Traffic Conn Message) : Prop :=
  state.offered.isSome ∨
    (∃ client, state.hub.stage client = .registering ∨ state.hub.stage client = .unregistering) ∨
    (¬ state.hub.AtSelect ∧
      ∃ client ∈ state.hub.clients, client ∈ state.hub.remaining ∧ state.writing ≠ some client)

def Blocked (state : Traffic Conn Message) : Prop :=
  ∃ client, state.writing = some client ∧ client ∈ state.stalled

/--
The step does not make Run write to a stalled peer while someone waits, and no
one starts to wait while Run writes to a stalled peer.
-/
def Spares (state : Traffic Conn Message) : Progress Conn Message → Prop
  | .visit client =>
      client ∈ state.stalled →
        ¬ ({ state with writing := some client } : Traffic Conn Message).Waiting
  | .stall client => state.writing = some client → ¬ state.Waiting
  | .upgrade _ | .readError _ | .publish _ => ¬ state.Blocked
  | _ => True

section Decidable

variable [Fintype Conn] (state : Traffic Conn Message) (label : Progress Conn Message)

instance : Decidable state.Waiting := by
  unfold Waiting
  infer_instance

instance : Decidable state.Blocked := by
  unfold Blocked
  infer_instance

instance : Decidable (state.Spares label) := by
  unfold Spares
  split <;> infer_instance

end Decidable

/-! ## Run between two steps -/

section Step

variable {state : Traffic Conn Message} {label : Progress Conn Message} {client : Conn}

omit [DecidableEq Conn] in
def Writes (state : Traffic Conn Message) : Prop :=
  ∀ client, state.writing = some client → ¬ state.hub.AtSelect ∧ client ∈ state.hub.remaining

theorem Writes.next (h : state.Writes) (henabled : state.Enabled label) :
    (state.next label).Writes := by
  intro client hwriting
  cases label with
  | upgrade other | readError other | publish message | stall other | resume other =>
      exact h client hwriting
  | register other | unregister other => exact absurd henabled.1 (h client hwriting).1
  | receive message => exact absurd henabled.1 (h client hwriting).1
  | visit other =>
      obtain rfl := Option.some.inj hwriting
      exact henabled.2
  | written other succeeds => contradiction
  | broadcasted =>
      exact nomatch henabled.1.symm.trans hwriting

omit [DecidableEq Conn] in
theorem stuck_of_blocked (h : state.Writes) (hblocked : state.Blocked) : state.Stuck := by
  obtain ⟨client, hwriting, hstalled⟩ := hblocked
  intro label hrun henabled
  have hbusy := (h client hwriting).1
  cases label with
  | register other | unregister other | receive message => exact hbusy henabled.1
  | visit other | broadcasted => exact nomatch henabled.1.symm.trans hwriting
  | written other succeeds =>
      obtain rfl := Option.some.inj (hwriting.symm.trans henabled.1)
      exact henabled.2 hstalled
  | upgrade other | readError other | publish message | stall other | resume other => contradiction

theorem blocked_of_stuck (hwaiting : state.Waiting) (hstuck : state.Stuck) : state.Blocked := by
  cases hwriting : state.writing with
  | some client =>
      refine ⟨client, hwriting, ?_⟩
      by_contra hfree
      exact hstuck (.written client true) rfl ⟨hwriting, hfree⟩
  | none =>
      exfalso
      by_cases hselect : state.hub.AtSelect
      · rcases hwaiting with hoffered | ⟨client, hstage | hstage⟩ | ⟨hbusy, -⟩
        · obtain ⟨message, hmessage⟩ := Option.isSome_iff_exists.mp hoffered
          exact hstuck (.receive message) rfl ⟨hselect, hmessage⟩
        · exact hstuck (.register client) rfl ⟨hselect, hstage⟩
        · exact hstuck (.unregister client) rfl ⟨hselect, hstage⟩
        · exact hbusy hselect
      · rcases state.hub.remaining.eq_empty_or_nonempty with hempty | ⟨client, hclient⟩
        · exact hstuck .broadcasted rfl ⟨hwriting, hselect, hempty⟩
        · exact hstuck (.visit client) rfl ⟨hwriting, hselect, hclient⟩

theorem stuck_waiting_iff (h : state.Writes) :
    state.Stuck ∧ state.Waiting ↔ state.Blocked ∧ state.Waiting :=
  and_congr_left fun hwaiting => ⟨blocked_of_stuck hwaiting, stuck_of_blocked h⟩

omit [DecidableEq Conn] in
theorem not_blocked_of_none (h : state.writing = none) : ¬ state.Blocked := by
  rintro ⟨client, hwriting, -⟩
  exact nomatch h.symm.trans hwriting

omit [DecidableEq Conn] in
theorem Writes.none_of_atSelect (h : state.Writes) (hselect : state.hub.AtSelect) :
    state.writing = none := by
  cases hwriting : state.writing with
  | none => rfl
  | some client => exact absurd hselect (h client hwriting).1

theorem spares_iff (h : state.Writes) (henabled : state.Enabled label)
    (hfree : ¬ (state.Blocked ∧ state.Waiting)) :
    state.Spares label ↔ ¬ ((state.next label).Blocked ∧ (state.next label).Waiting) := by
  cases label with
  | register client | unregister client | receive message =>
      refine iff_of_true trivial fun hbad => not_blocked_of_none ?_ hbad.1
      exact h.none_of_atSelect henabled.1
  | written client succeeds =>
      exact iff_of_true trivial fun hbad => not_blocked_of_none rfl hbad.1
  | broadcasted =>
      exact iff_of_true trivial fun hbad => not_blocked_of_none henabled.1 hbad.1
  | resume client =>
      refine iff_of_true trivial fun ⟨⟨other, hwriting, hstalled⟩, hwaiting⟩ => hfree ?_
      exact ⟨⟨other, hwriting, Finset.mem_of_mem_erase hstalled⟩, hwaiting⟩
  | upgrade client =>
      have hwaiting : (state.next (.upgrade client)).Waiting :=
        .inr (.inl ⟨client, .inl (Function.update_self ..)⟩)
      exact not_congr (iff_self_and.mpr fun _ => hwaiting)
  | readError client =>
      have hwaiting : (state.next (.readError client)).Waiting :=
        .inr (.inl ⟨client, .inr (Function.update_self ..)⟩)
      exact not_congr (iff_self_and.mpr fun _ => hwaiting)
  | publish message =>
      have hwaiting : (state.next (.publish message)).Waiting := .inl rfl
      exact not_congr (iff_self_and.mpr fun _ => hwaiting)
  | visit client =>
      constructor
      · rintro hspares ⟨⟨other, hwriting, hstalled⟩, hwaiting⟩
        obtain rfl := Option.some.inj hwriting
        exact hspares hstalled hwaiting
      · exact fun hnext hstalled hwaiting => hnext ⟨⟨client, rfl, hstalled⟩, hwaiting⟩
  | stall client =>
      constructor
      · rintro hspares ⟨⟨other, hwriting, hstalled⟩, hwaiting⟩
        rcases Finset.mem_insert.mp hstalled with rfl | hold
        · exact hspares hwriting hwaiting
        · exact hfree ⟨⟨other, hwriting, hold⟩, hwaiting⟩
      · exact fun hnext hwriting hwaiting =>
          hnext ⟨⟨client, hwriting, Finset.mem_insert_self _ _⟩, hwaiting⟩

theorem blocked_next (h : state.Writes) (henabled : state.Enabled label)
    (hwriting : state.writing = some client) (hstalled : client ∈ state.stalled)
    (hlabel : label ≠ .resume client) :
    (state.next label).writing = some client ∧ client ∈ (state.next label).stalled ∧
      (state.next label).hub.clients = state.hub.clients ∧
      (state.next label).hub.remaining = state.hub.remaining := by
  have hstuck : ¬ label.ofRun := fun hrun =>
    stuck_of_blocked h ⟨client, hwriting, hstalled⟩ label hrun henabled
  cases label with
  | upgrade other | readError other | publish message => exact ⟨hwriting, hstalled, rfl, rfl⟩
  | stall other => exact ⟨hwriting, Finset.mem_insert_of_mem hstalled, rfl, rfl⟩
  | resume other =>
      have hne : client ≠ other := fun heq => hlabel (heq ▸ rfl)
      exact ⟨hwriting, Finset.mem_erase_of_ne_of_mem hne hstalled, rfl, rfl⟩
  | _ => exact absurd rfl hstuck

end Step

/-! ## Runs -/

section Run

variable [DecidableEq Message] {labels : List (Progress Conn Message)}
  {state : Traffic Conn Message}

omit [DecidableEq Conn] [DecidableEq Message] in
theorem start_writes : (start : Traffic Conn Message).Writes :=
  fun _ hwriting => nomatch hwriting

theorem writes_of_run (hrun : traffic.run Traffic.start labels = some state) : state.Writes :=
  System.run_invariant _ start_writes
    (fun _ _ _ hwrites hstep => by
      obtain ⟨henabled, rfl⟩ := System.guarded_step_eq_some.mp hstep
      exact hwrites.next henabled) hrun

/--
In every state on the way of a run, Run is not stuck while someone waits for
it, exactly when no step of the run makes it write to a stalled peer while
someone waits.
-/
theorem never_stuck_iff (hrun : traffic.run Traffic.start labels = some state) :
    traffic.Along Spares Traffic.start labels ↔
      ∀ before middle, before <+: labels → traffic.run Traffic.start before = some middle →
        ¬ (middle.Stuck ∧ middle.Waiting) := by
  refine System.along_iff_forall_prefix _ (I := Writes) ⟨start_writes, fun hbad => ?_⟩ ?_ hrun
  · exact not_blocked_of_none rfl ((stuck_waiting_iff start_writes).mp hbad).1
  intro state label next hwrites hstep
  obtain ⟨henabled, rfl⟩ := System.guarded_step_eq_some.mp hstep
  refine ⟨hwrites.next henabled, fun hfree => ?_⟩
  rw [stuck_waiting_iff hwrites] at hfree
  rw [stuck_waiting_iff (hwrites.next henabled)]
  exact spares_iff hwrites henabled hfree

theorem blocked_run {client : Conn} (hwrites : state.Writes)
    (hwriting : state.writing = some client) (hstalled : client ∈ state.stalled)
    {later : List (Progress Conn Message)} {final : Traffic Conn Message}
    (hlater : .resume client ∉ later) (hrun : traffic.run state later = some final) :
    final.Writes ∧ final.writing = some client ∧ client ∈ final.stalled ∧
      final.hub.clients = state.hub.clients ∧ final.hub.remaining = state.hub.remaining := by
  have hok : traffic.Along (fun _ label => label ≠ .resume client) state later := by
    refine System.along_of_forall_mem _ ?_ state
    rintro label hmem _ rfl
    exact hlater hmem
  refine System.run_invariant_along _
    (I := fun final => final.Writes ∧ final.writing = some client ∧ client ∈ final.stalled ∧
      final.hub.clients = state.hub.clients ∧ final.hub.remaining = state.hub.remaining)
    ⟨hwrites, hwriting, hstalled, rfl, rfl⟩ ?_ hrun hok
  rintro middle label next hne ⟨hmiddle, hmiddleWriting, hmiddleStalled, hclients, hremaining⟩ hstep
  obtain ⟨henabled, rfl⟩ := System.guarded_step_eq_some.mp hstep
  obtain ⟨hnext, hmem, hsame, hsameRemaining⟩ :=
    blocked_next hmiddle henabled hmiddleWriting hmiddleStalled hne
  exact ⟨hmiddle.next henabled, hnext, hmem, hsame.trans hclients, hsameRemaining.trans hremaining⟩

def oneClientStalls : List (Progress Bool String) :=
  [.upgrade true, .register true, .publish "online", .receive "online", .stall true, .visit true,
    .resume true, .written true true, .broadcasted, .publish "offline"]

theorem never_stuck_iff_one_client :
    ∃ state, traffic.run Traffic.start oneClientStalls = some state ∧
      ∀ before middle, before <+: oneClientStalls →
        traffic.run Traffic.start before = some middle → ¬ (middle.Stuck ∧ middle.Waiting) := by
  have hrun : traffic.run Traffic.start oneClientStalls = some _ := rfl
  exact ⟨_, hrun, (never_stuck_iff hrun).mp (by decide)⟩

def firstClientStalls : List (Progress Bool String) :=
  [.upgrade true, .register true, .upgrade false, .register false, .stall true, .publish "online",
    .receive "online", .visit true]

/-- Until the stalled peer acts, Run is stuck and the other client has not been written to. -/
theorem stalled_client_blocks :
    ∃ state, traffic.run Traffic.start firstClientStalls = some state ∧
      ∀ later final, .resume true ∉ later → traffic.run state later = some final →
        final.Stuck ∧ final.Waiting := by
  have hrun : traffic.run Traffic.start firstClientStalls = some _ := rfl
  refine ⟨_, hrun, fun later final hlater hfinal => ?_⟩
  obtain ⟨hwrites, hwriting, hstalled, hclients, hremaining⟩ :=
    blocked_run (writes_of_run hrun) rfl (by decide) hlater hfinal
  have hother : false ∈ final.hub.clients ∧ false ∈ final.hub.remaining := by
    rw [hclients, hremaining]
    decide
  refine ⟨stuck_of_blocked hwrites ⟨true, hwriting, hstalled⟩, .inr (.inr ?_)⟩
  exact ⟨(hwrites true hwriting).1, false, hother.1, hother.2, by simp [hwriting]⟩

end Run

end Traffic

end NexPulse.Query
