import NexPulse.Query.Hub

/-!
# Who is in the client map

A connection leaves the map by a failed write or by its own unregister, in
either order.  `Placed` ties, for one connection, the stage of ServeWS and the
reader to the map and to the closes of the hub; the registry invariant adds the
gauge and the clients that a range loop has still to visit.
-/

namespace NexPulse.Query

open NexPulse.Foundation

variable {Conn Message : Type*} [DecidableEq Conn]

namespace Hub

def Registered (hub : Hub Conn Message) (client : Conn) : Prop :=
  hub.stage client ≠ .fresh ∧ hub.stage client ≠ .registering

def Gone (hub : Hub Conn Message) (client : Conn) : Prop :=
  hub.Registered client ∧ client ∉ hub.clients

structure Placed (hub : Hub Conn Message) (client : Conn) : Prop where
  listed : client ∈ hub.clients →
    hub.Registered client ∧ hub.stage client ≠ .finished ∧ hub.closed client = 0
  gone : hub.Gone client → hub.closed client = 1
  waiting : ¬ hub.Registered client → hub.closed client = 0

structure Registry (hub : Hub Conn Message) : Prop where
  gauge : hub.activeWebSockets = hub.clients.card
  placed : ∀ client, hub.Placed client
  remaining : hub.remaining ⊆ hub.clients
  idle : hub.AtSelect → hub.remaining = ∅

omit [DecidableEq Conn] in
theorem newHub_registry : (newHub : Hub Conn Message).Registry where
  gauge := rfl
  placed client := {
    listed := fun hmem => absurd hmem (Finset.notMem_empty client)
    gone := fun hgone => absurd rfl hgone.1.1
    waiting := fun _ => rfl }
  remaining := Finset.Subset.refl _
  idle _ := rfl

/-! ## One step -/

section Step

variable {hub after : Hub Conn Message} {client other : Conn} {stage : Stage}

omit [DecidableEq Conn] in
theorem Placed.congr (h : hub.Placed client) (hstage : after.stage client = hub.stage client)
    (hmem : client ∈ after.clients ↔ client ∈ hub.clients)
    (hclosed : after.closed client = hub.closed client) : after.Placed client := by
  have hregistered : after.Registered client ↔ hub.Registered client := by
    simp only [Registered, hstage]
  constructor
  · rw [hmem, hregistered, hstage, hclosed]
    exact h.listed
  · rw [Gone, hmem, hregistered, hclosed]
    exact h.gone
  · rw [hregistered, hclosed]
    exact h.waiting

theorem Registry.setStage (h : hub.Registry) (hself : (hub.setStage client stage).Placed client) :
    (hub.setStage client stage).Registry where
  gauge := h.gauge
  placed other := by
    by_cases hother : other = client
    · rwa [hother]
    · exact (h.placed other).congr (Function.update_of_ne hother ..) Iff.rfl rfl
  remaining := h.remaining
  idle := h.idle

theorem Registry.register (h : hub.Registry) (hstage : hub.stage client = .registering) :
    (hub.next (.register client : Event Conn Message)).Registry := by
  have hwaiting : ¬ hub.Registered client := fun hregistered => hregistered.2 hstage
  have hmem : client ∉ hub.clients := fun hmem => hwaiting ((h.placed client).listed hmem).1
  have hclosed := (h.placed client).waiting hwaiting
  constructor
  · simp [next, h.gauge, Finset.card_insert_of_notMem hmem]
  · intro other
    by_cases hother : other = client
    · subst hother
      constructor <;> simp [Registered, Gone, next, Hub.setStage, hclosed]
    · exact (h.placed other).congr (Function.update_of_ne hother ..)
        (Finset.mem_insert.trans (or_iff_right hother)) rfl
  · exact h.remaining.trans (Finset.subset_insert _ _)
  · exact h.idle

theorem Registry.leave (h : hub.Registry) (hmem : client ∈ hub.clients)
    (hfresh : stage ≠ .fresh) (hregistering : stage ≠ .registering) :
    ({ (hub.setStage client stage).drop client with
      remaining := hub.remaining.erase client } : Hub Conn Message).Registry := by
  have hclosed := ((h.placed client).listed hmem).2.2
  constructor
  · have hpos : 0 < hub.clients.card := Finset.card_pos.mpr ⟨client, hmem⟩
    simp only [drop, Hub.setStage, Finset.card_erase_of_mem hmem, h.gauge]
    omega
  · intro other
    by_cases hother : other = client
    · subst hother
      constructor <;>
        simp [Registered, Gone, drop, Hub.setStage, hclosed, hfresh, hregistering]
    · exact (h.placed other).congr (Function.update_of_ne hother ..)
        (Finset.mem_erase.trans (and_iff_right hother)) (Function.update_of_ne hother ..)
  · exact Finset.erase_subset_erase _ h.remaining
  · intro hselect
    simp [h.idle hselect]

theorem Registry.next {event : Event Conn Message} (h : hub.Registry)
    (henabled : hub.Enabled event) : (hub.next event).Registry := by
  cases event with
  | upgrade client =>
      have hstage : hub.stage client = .fresh := henabled
      have hwaiting : ¬ hub.Registered client := fun hregistered => hregistered.1 hstage
      have hmem : client ∉ hub.clients := fun hmem => hwaiting ((h.placed client).listed hmem).1
      have hclosed := (h.placed client).waiting hwaiting
      refine h.setStage ?_
      constructor <;> simp [Registered, Gone, Hub.setStage, hclosed, hmem]
  | register client => exact h.register henabled.2
  | readError client =>
      have hstage : hub.stage client = .reading := henabled
      have hplaced := h.placed client
      have hregistered : hub.Registered client := by simp [Registered, hstage]
      refine h.setStage ⟨fun hmem => ?_, fun hgone => ?_, ?_⟩
      · simp [Registered, Hub.setStage, hplaced.listed hmem]
      · exact hplaced.gone ⟨hregistered, hgone.2⟩
      · simp [Registered, Hub.setStage]
  | unregister client =>
      obtain ⟨hselect, hstage⟩ := henabled
      by_cases hmem : client ∈ hub.clients
      · have hleave := h.leave hmem (show Stage.finished ≠ .fresh by decide) (by decide)
        simpa [Hub.next, hmem, h.idle hselect, Hub.drop, Hub.setStage] using hleave
      · have hregistered : hub.Registered client := by simp [Registered, hstage]
        have hclosed := (h.placed client).gone ⟨hregistered, hmem⟩
        simp only [Hub.next, if_neg hmem]
        refine h.setStage ?_
        constructor <;> simp [Registered, Gone, Hub.setStage, hclosed, hmem]
  | broadcast message =>
      exact ⟨h.gauge, fun other => (h.placed other).congr rfl Iff.rfl rfl,
        Finset.Subset.refl _, fun hselect => nomatch hselect⟩
  | write client succeeds =>
      obtain ⟨hselect, hremaining⟩ := henabled
      cases succeeds with
      | true =>
          exact ⟨h.gauge, fun other => (h.placed other).congr rfl Iff.rfl rfl,
            (Finset.erase_subset _ _).trans h.remaining,
            fun hatSelect => absurd hatSelect hselect⟩
      | false =>
          have hmem := h.remaining hremaining
          obtain ⟨hregistered, -, -⟩ := (h.placed client).listed hmem
          have hleave := h.leave hmem hregistered.1 hregistered.2
          simpa [Hub.next, Hub.drop, Hub.setStage] using hleave
  | broadcasted =>
      exact ⟨h.gauge, fun other => (h.placed other).congr rfl Iff.rfl rfl, h.remaining,
        fun _ => henabled.2⟩

theorem stage_next {event : Event Conn Message} (henabled : hub.Enabled event) :
    (hub.Registered client → (hub.next event).Registered client) ∧
      (hub.stage client = .finished → (hub.next event).stage client = .finished) := by
  have hupdate (changed : Conn) (before after : Stage) (hbefore : hub.stage changed = before)
      (hreader : before ≠ .finished)
      (hafter : before = .fresh ∨ before = .registering ∨
        (after ≠ .fresh ∧ after ≠ .registering)) :
      (hub.Registered client → (hub.setStage changed after).Registered client) ∧
        (hub.stage client = .finished → (hub.setStage changed after).stage client = .finished) := by
    by_cases hself : client = changed
    · subst hself
      simp only [Registered, Hub.setStage, Function.update_self, hbefore]
      grind
    · simp [Registered, Hub.setStage, hself]
  cases event with
  | upgrade changed => exact hupdate changed _ _ henabled (by decide) (by decide)
  | register changed => exact hupdate changed _ _ henabled.2 (by decide) (by decide)
  | readError changed => exact hupdate changed _ _ henabled (by decide) (by decide)
  | unregister changed =>
      have hchanged := hupdate changed _ .finished henabled.2 (by decide) (by decide)
      simp only [Hub.next]
      split <;> exact hchanged
  | write changed succeeds => cases succeeds <;> exact ⟨id, id⟩
  | broadcast | broadcasted => exact ⟨id, id⟩

theorem mem_of_mem_next {event : Event Conn Message} (hmem : client ∈ (hub.next event).clients) :
    client ∈ hub.clients ∨ event = .register client := by
  cases event with
  | register changed =>
      rcases Finset.mem_insert.mp hmem with rfl | hmem
      · exact .inr rfl
      · exact .inl hmem
  | unregister changed =>
      simp only [Hub.next] at hmem
      split at hmem
      · exact .inl (Finset.mem_of_mem_erase hmem)
      · exact .inl hmem
  | write changed succeeds =>
      cases succeeds with
      | true => exact .inl hmem
      | false => exact .inl (Finset.mem_of_mem_erase hmem)
  | upgrade | readError | broadcast | broadcasted => exact .inl hmem

theorem Gone.next {event : Event Conn Message} (h : hub.Gone client)
    (henabled : hub.Enabled event) : (hub.next event).Gone client := by
  refine ⟨(stage_next henabled).1 h.1, fun hmem => ?_⟩
  rcases mem_of_mem_next hmem with hmem | rfl
  · exact h.2 hmem
  · exact h.1.2 henabled.2

end Step

end Hub

/-! ## Whole runs -/

section Run

variable {labels before after : List (Event Conn Message)} {hub middle : Hub Conn Message}
  {client : Conn}

theorem registry_of_run (hrun : hubSystem.run Hub.newHub labels = some hub) : hub.Registry :=
  hubSystem.run_invariant Hub.newHub_registry
    (fun _ _ _ hregistry hstep => by
      obtain ⟨henabled, rfl⟩ := System.guarded_step_eq_some.mp hstep
      exact hregistry.next henabled) hrun

/-- The hub had the connection in its map at some point of the run and deleted it later. -/
def Removed (labels : List (Event Conn Message)) (client : Conn) : Prop :=
  ∃ before after : List (Event Conn Message), ∃ held left : Hub Conn Message,
    labels = before ++ after ∧
      hubSystem.run Hub.newHub before = some held ∧ client ∈ held.clients ∧
      hubSystem.run held after = some left ∧ client ∉ left.clients

theorem gone_of_removed (hrun : hubSystem.run Hub.newHub labels = some hub)
    (hremoved : Removed labels client) : hub.Gone client := by
  obtain ⟨before, after, held, left, rfl, hheld, hmem, hleft, hnot⟩ := hremoved
  have hfinal : hub = left := by
    rw [System.run_append, hheld, Option.bind_some, hleft] at hrun
    exact (Option.some.inj hrun).symm
  subst hfinal
  have hregistered := (((registry_of_run hheld).placed client).listed hmem).1
  refine ⟨?_, hnot⟩
  refine hubSystem.run_invariant (I := fun state => state.Registered client) hregistered ?_ hleft
  intro state event next hstate hstep
  obtain ⟨henabled, rfl⟩ := System.guarded_step_eq_some.mp hstep
  exact (Hub.stage_next henabled).1 hstate

theorem gone_run (hregistry : middle.Registry) (hgone : middle.Gone client)
    (hrun : hubSystem.run middle after = some hub) :
    hub.Gone client ∧ ∀ succeeds, .write client succeeds ∉ after := by
  have hboth := hubSystem.run_induction
    (P := fun labels state => state.Registry ∧ state.Gone client ∧
      ∀ succeeds, .write client succeeds ∉ labels)
    ⟨hregistry, hgone, by simp⟩ ?_ hrun
  · exact hboth.2
  · rintro labels state event next - ⟨hregistry, hgone, hwrites⟩ hstep
    obtain ⟨henabled, rfl⟩ := System.guarded_step_eq_some.mp hstep
    refine ⟨hregistry.next henabled, hgone.next henabled, fun succeeds hmem => ?_⟩
    rcases List.mem_append.mp hmem with hmem | hmem
    · exact hwrites succeeds hmem
    · obtain rfl := List.mem_singleton.mp hmem
      exact hgone.2 (hregistry.remaining henabled.2)

theorem finished_of_unregister (hrun : hubSystem.run Hub.newHub labels = some hub)
    (hmem : .unregister client ∈ labels) : hub.stage client = .finished := by
  refine hubSystem.run_induction
    (P := fun labels state => .unregister client ∈ labels → state.stage client = .finished)
    (fun hmem => absurd hmem List.not_mem_nil) ?_ hrun hmem
  intro labels state event next _ ih hstep hmem
  obtain ⟨henabled, rfl⟩ := System.guarded_step_eq_some.mp hstep
  rcases List.mem_append.mp hmem with hmem | hmem
  · exact (Hub.stage_next henabled).2 (ih hmem)
  · obtain rfl := List.mem_singleton.mp hmem
    simp only [Hub.next]
    split <;> simp [Hub.setStage, Hub.drop]

/--
In every run of the hub, ServeWS and the reader goroutines, between any two
steps of Run: the gauge is the size of the map and no client in it has been
closed; a connection that was removed at any point has been closed exactly
once, is out of the map, and was not written again; a connection whose
unregister was consumed is out of the map.
-/
theorem registry_in_step (hrun : hubSystem.run Hub.newHub labels = some hub) :
    (hub.activeWebSockets = hub.clients.card ∧ ∀ client ∈ hub.clients, hub.closed client = 0) ∧
      (∀ before after client, labels = before ++ after → Removed before client →
        hub.closed client = 1 ∧ client ∉ hub.clients ∧
          ∀ succeeds, .write client succeeds ∉ after) ∧
      ∀ client, .unregister client ∈ labels → client ∉ hub.clients := by
  have hregistry := registry_of_run hrun
  refine ⟨⟨hregistry.gauge, fun client hmem => ((hregistry.placed client).listed hmem).2.2⟩, ?_, ?_⟩
  · rintro before after client rfl hremoved
    rw [System.run_append, Option.bind_eq_some_iff] at hrun
    obtain ⟨middle, hbefore, hafter⟩ := hrun
    have hgone := gone_of_removed hbefore hremoved
    obtain ⟨hout, hwrites⟩ := gone_run (registry_of_run hbefore) hgone hafter
    exact ⟨(hregistry.placed client).gone hout, hout.2, hwrites⟩
  · intro client hunregister hmem
    exact ((hregistry.placed client).listed hmem).2.1 (finished_of_unregister hrun hunregister)

def failedWriteThenUnregister : List (Event Bool String) :=
  [.upgrade true, .upgrade false, .register false, .register true, .broadcast "online",
    .write true true, .readError false, .write false false, .broadcasted, .unregister false]

theorem registry_in_step_two_clients :
    ∃ hub, hubSystem.run Hub.newHub failedWriteThenUnregister = some hub ∧
      hub.activeWebSockets = hub.clients.card ∧ false ∉ hub.clients := by
  have hrun : hubSystem.run Hub.newHub failedWriteThenUnregister = some _ := rfl
  obtain ⟨⟨hgauge, -⟩, -, hunregistered⟩ := registry_in_step hrun
  exact ⟨_, hrun, hgauge, hunregistered false (by decide)⟩

end Run

end NexPulse.Query
