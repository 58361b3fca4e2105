import NexPulse.Ingest.Writer

/-!
# Acknowledged events

Every event for which WriteMessages has returned nil is at first in the hands of
the writer.  It is in the topic or held as long as no batch fails its last
attempt and no batch is taken for sent that did not get there; after such an
attempt the request has been answered with 202, or will be, and nothing reports
the loss.
-/

namespace NexPulse.Ingest

open NexPulse.Foundation NexPulse.Foundation.Redis NexPulse.RateLimit

variable {Body Value : Type*}

def KeepsBatch (maxAttempts : Nat) (state : Production Body Value) : Activity Body → Prop
  | .attempt index false => ∀ batch ∈ state.batches[index]?, batch.attempts + 1 < maxAttempts
  | _ => True

instance (maxAttempts : Nat) (state : Production Body Value) (activity : Activity Body) :
    Decidable (KeepsBatch maxAttempts state activity) := by
  unfold KeepsBatch
  split <;> infer_instance

/--
The incident is no last attempt taken for failed, and none taken for sent of a
batch that does not get to the broker while the topic misses one of its events.
-/
def KeepsEvents (maxAttempts : Nat) (state : Production Body Value) : Incident Body → Prop
  | .activity activity => KeepsBatch maxAttempts state activity
  | .appended index => KeepsBatch maxAttempts state (.attempt index false)
  | .missing index => ∀ batch ∈ state.batches[index]?, ∀ entry ∈ batch.messages,
      entry.1 ∈ state.topic.map Prod.fst
  | .restart => True

instance (maxAttempts : Nat) (state : Production Body Value) (incident : Incident Body) :
    Decidable (KeepsEvents maxAttempts state incident) := by
  unfold KeepsEvents
  split <;> infer_instance

namespace Production

/-- The writer has refused or discarded the event, or let go of it before it was in the topic. -/
def GivenUp (state : Production Body Value) (id : Nat) : Prop :=
  id ∈ state.refused ∨ id ∈ state.discarded ∨
    (state.gateway.publishedAt id).isSome = true ∧ id ∉ state.present.map Prod.fst

end Production

/--
Every event counted as ingested is in the topic or held for delivery, and every
event that the writer gives up on is on the way of the 500 answer, as counted.
-/
structure Kept (codec : Codec Body Value) (state : Production Body Value) : Prop where
  acknowledged : ∀ id handler, state.gateway.handlers[id]? = some handler →
    handler.ingested = true →
    ∃ message, codec.marshal handler.event = some message.value ∧ (id, message) ∈ state.present
  reported : ∀ id, state.GivenUp id → state.gateway.failedAt id = true
  counted : state.gateway.metrics.eventsIngested =
      state.gateway.handlers.countP Handler.ingested ∧
    state.gateway.metrics.eventsRejected .kafkaError =
      state.gateway.handlers.countP (Handler.rejectedFor .kafkaError)

/-! ## The invariant -/

namespace Production

def holding (state : Production Body Value) : List (Nat × Message Value) :=
  state.queue ++ state.batches.flatMap Batch.messages

structure LosesNone (state : Production Body Value) : Prop where
  discarded : state.discarded = []
  published : ∀ id, (state.gateway.publishedAt id).isSome = true → id ∈ state.present.map Prod.fst

end Production

structure Placed (codec : Codec Body Value) (state : Production Body Value) : Prop where
  accounted : state.gateway.Accounted codec
  present : ∀ entry ∈ state.present, ∃ event, state.gateway.publishedAt entry.1 = some event ∧
    codec.marshal event = some entry.2.value
  held : (state.holding.map Prod.fst).Nodup
  refused : ∀ id ∈ state.refused, state.gateway.failedAt id = true
  discarded : ∀ id ∈ state.discarded, (state.gateway.publishedAt id).isSome = true
  nonempty : ∀ batch ∈ state.batches, batch.messages ≠ []

section Batch

variable {codec : Codec Body Value} {maxAttempts : Nat} {state next : Production Body Value}
  {index : Nat} {batch : Batch Value}

theorem holding_perm (h : state.batches[index]? = some batch) :
    state.holding.Perm (batch.messages ++ (state.forget index).holding) := by
  have hsplit := flatMap_perm h
  simp only [← Multiset.coe_eq_coe, ← Multiset.coe_add] at hsplit ⊢
  simp only [Production.holding, Production.forget, ← Multiset.coe_add, hsplit]
  abel

theorem mem_present_of_batch (h : state.batches[index]? = some batch)
    {entry : Nat × Message Value} (hmem : entry ∈ batch.messages) : entry ∈ state.present :=
  (present_forget h).mem_iff.mpr (List.mem_append_left _ hmem)

theorem Placed.held_forget (h : Placed codec state) (hfound : state.batches[index]? = some batch) :
    (batch.messages.map Prod.fst ++ (state.forget index).holding.map Prod.fst).Nodup := by
  rw [← List.map_append]
  exact ((holding_perm hfound).map Prod.fst).nodup_iff.mp h.held

theorem Placed.of_subset (h : Placed codec state) (hgateway : next.gateway = state.gateway)
    (hpresent : next.present ⊆ state.present) (hheld : (next.holding.map Prod.fst).Nodup)
    (hrefused : next.refused = state.refused)
    (hdiscarded : ∀ id ∈ next.discarded, (state.gateway.publishedAt id).isSome = true)
    (hnonempty : ∀ batch ∈ next.batches, batch.messages ≠ []) : Placed codec next where
  accounted := hgateway ▸ h.accounted
  present entry hmem := hgateway ▸ h.present entry (hpresent hmem)
  held := hheld
  refused := by rw [hgateway, hrefused]; exact h.refused
  discarded := hgateway ▸ hdiscarded
  nonempty := hnonempty

theorem losesNone_congr
    (hpublished : ∀ id, next.gateway.publishedAt id = state.gateway.publishedAt id)
    (hdiscarded : next.discarded = state.discarded)
    (hpresent : ∀ entry, entry ∈ next.present ↔ entry ∈ state.present) :
    next.LosesNone ↔ state.LosesNone := by
  have hids (id : Nat) : id ∈ next.present.map Prod.fst ↔ id ∈ state.present.map Prod.fst := by
    simp [hpresent]
  constructor
  · exact fun h => ⟨hdiscarded ▸ h.discarded,
      fun id hid => (hids id).mp (h.published id ((hpublished id).symm ▸ hid))⟩
  · exact fun h => ⟨hdiscarded ▸ h.discarded,
      fun id hid => (hids id).mpr (h.published id ((hpublished id) ▸ hid))⟩

theorem Placed.cut (h : Placed codec state) (requests : List Nat)
    (hsome : (state.queue.filter fun entry => entry.1 ∈ requests).isEmpty = false) :
    Placed codec (state.cut requests) ∧
      ((state.cut requests).LosesNone ↔ state.LosesNone) := by
  have hperm : (state.cut requests).present.Perm state.present := present_cut requests
  refine ⟨h.of_subset rfl hperm.subset ?_ rfl h.discarded ?_,
    losesNone_congr (fun _ => rfl) rfl fun entry => hperm.mem_iff⟩
  · have hholding : (state.cut requests).holding.Perm state.holding :=
      (List.perm_append_left_iff state.topic).mp hperm
    exact (hholding.map Prod.fst).nodup_iff.mpr h.held
  · intro batch hbatch
    rcases List.mem_append.mp hbatch with hold | hnew
    · exact h.nonempty batch hold
    · obtain rfl := List.mem_singleton.mp hnew
      exact List.isEmpty_eq_false_iff.mp hsome

theorem Placed.attempt {succeeds : Bool} (h : Placed codec state)
    (hstep : (production codec maxAttempts).step state (.attempt index succeeds) = some next) :
    Placed codec next ∧ (next.LosesNone ↔ state.LosesNone ∧
      KeepsBatch maxAttempts state (.attempt index succeeds : Activity Body)) := by
  obtain ⟨batch, hfound, hnext⟩ := Option.map_eq_some_iff.mp hstep
  have herased : ((state.forget index).holding.map Prod.fst).Nodup :=
    (List.nodup_append.mp (h.held_forget hfound)).2.1
  have hothers : ∀ other ∈ state.batches.eraseIdx index, other.messages ≠ [] :=
    fun other hother => h.nonempty other (List.mem_of_mem_eraseIdx hother)
  cases succeeds with
  | true =>
      obtain rfl : state.deliver index batch = next := hnext
      have hperm := present_deliver hfound
      have hnone : (state.deliver index batch).LosesNone ↔ state.LosesNone :=
        losesNone_congr (fun _ => rfl) rfl fun entry => hperm.mem_iff
      refine ⟨h.of_subset rfl hperm.subset herased rfl h.discarded hothers, ?_⟩
      rw [hnone]
      exact (and_iff_left trivial).symm
  | false =>
      have hkeeps : KeepsBatch maxAttempts state (.attempt index false : Activity Body) ↔
          batch.attempts + 1 < maxAttempts := by
        simp [KeepsBatch, hfound]
      by_cases hattempts : batch.attempts + 1 < maxAttempts
      · obtain rfl : state.retry index batch = next := by simpa [hattempts] using hnext
        have hsame := present_retry hfound
        have hholding : (state.retry index batch).holding = state.holding :=
          List.append_cancel_left hsame
        refine ⟨h.of_subset rfl (fun entry hmem => hsame ▸ hmem) (hholding ▸ h.held) rfl
          h.discarded ?_, ?_⟩
        · intro other hother
          rcases List.mem_or_eq_of_mem_set hother with hold | rfl
          · exact h.nonempty other hold
          · exact h.nonempty batch (List.mem_of_getElem? hfound)
        · have hnone : (state.retry index batch).LosesNone ↔ state.LosesNone :=
            losesNone_congr (fun _ => rfl) rfl fun entry => by rw [hsame]
          rw [hnone]
          exact (and_iff_left (hkeeps.mpr hattempts)).symm
      · obtain rfl : state.discard index batch = next := by simpa [hattempts] using hnext
        refine ⟨h.of_subset rfl ?_ herased rfl ?_ hothers, ?_⟩
        · exact fun entry hmem =>
            (present_discard hfound).mem_iff.mpr (List.mem_append_right _ hmem)
        · intro id hmem
          rcases List.mem_append.mp hmem with hold | hnew
          · exact h.discarded id hold
          · obtain ⟨entry, hentry, rfl⟩ := List.mem_map.mp hnew
            obtain ⟨event, hpublished, -⟩ := h.present entry (mem_present_of_batch hfound hentry)
            exact Option.isSome_of_eq_some hpublished
        · refine iff_of_false (fun hnone => ?_) fun hboth => hattempts (hkeeps.mp hboth.2)
          have hempty : batch.messages = [] := by
            simpa [Production.discard] using (List.append_eq_nil_iff.mp hnone.discarded).2
          exact h.nonempty batch (List.mem_of_getElem? hfound) hempty

theorem Placed.append (h : Placed codec state) (hfound : state.batches[index]? = some batch) :
    Placed codec (state.append batch) ∧
      ((state.append batch).LosesNone ↔ state.LosesNone) := by
  have hpresent (entry : Nat × Message Value) :
      entry ∈ (state.append batch).present ↔ entry ∈ state.present := by
    rw [(present_append state batch).mem_iff, List.mem_append]
    exact or_iff_right_of_imp fun hmem => mem_present_of_batch hfound hmem
  exact ⟨h.of_subset rfl (fun entry => (hpresent entry).mp) h.held rfl h.discarded h.nonempty,
    losesNone_congr (fun _ => rfl) rfl hpresent⟩

theorem Placed.forget (h : Placed codec state) (hfound : state.batches[index]? = some batch) :
    Placed codec (state.forget index) ∧ ((state.forget index).LosesNone ↔
      state.LosesNone ∧ ∀ entry ∈ batch.messages, entry.1 ∈ state.topic.map Prod.fst) := by
  have hperm := present_forget hfound
  have hnodup := h.held_forget hfound
  have hsubset : (state.forget index).present ⊆ state.present :=
    fun entry hmem => hperm.mem_iff.mpr (List.mem_append_right _ hmem)
  have hids (id : Nat) : id ∈ (state.forget index).present.map Prod.fst ↔
      id ∈ state.topic.map Prod.fst ∨ id ∈ (state.forget index).holding.map Prod.fst := by
    rw [← List.mem_append, ← List.map_append]
    exact .rfl
  refine ⟨h.of_subset rfl hsubset (List.nodup_append.mp hnodup).2.1 rfl h.discarded ?_, ?_, ?_⟩
  · exact fun other hother => h.nonempty other (List.mem_of_mem_eraseIdx hother)
  · intro hnone
    refine ⟨⟨hnone.discarded, fun id hid => ?_⟩, fun entry hmem => ?_⟩
    · exact List.map_subset _ hsubset (hnone.published id hid)
    · obtain ⟨event, hpublished, -⟩ := h.present entry (mem_present_of_batch hfound hmem)
      have hstays := hnone.published entry.1 (Option.isSome_of_eq_some hpublished)
      -- The writer holds no other message of the request.
      refine ((hids entry.1).mp hstays).resolve_right fun hother => ?_
      exact (List.nodup_append.mp hnodup).2.2 _ (List.mem_map_of_mem hmem) _ hother rfl
  · rintro ⟨hnone, htopic⟩
    refine ⟨hnone.discarded, fun id hid => ?_⟩
    obtain ⟨entry, hentry, rfl⟩ := List.mem_map.mp (hnone.published id hid)
    rcases List.mem_append.mp (hperm.mem_iff.mp hentry) with hgone | hkept
    · exact (hids entry.1).mpr (.inl (htopic entry hgone))
    · exact List.mem_map_of_mem hkept

end Batch

/-! ## Moves of the gateway -/

section Accept

variable {codec : Codec Body Value} {state : Production Body Value} {mover : Option Nat}
  {moved : Moved Body Value} {handed : Handed Value}

theorem Placed.quiet (h : Placed codec state)
    (hturn : Turns codec state.gateway state.db mover moved) (hquiet : moved.handed = none) :
    Placed codec { state with gateway := moved.gateway, db := moved.db } ∧
      (Production.LosesNone { state with gateway := moved.gateway, db := moved.db } ↔
        state.LosesNone) := by
  have hsame := Gateway.publishedAt_turn hturn hquiet
  constructor
  · exact {
      accounted := h.accounted.turn hturn
      present := fun entry hmem => (hsame entry.1).1.symm ▸ h.present entry hmem
      held := h.held
      refused := fun id hmem => (hsame id).2 (h.refused id hmem)
      discarded := fun id hmem => (hsame id).1.symm ▸ h.discarded id hmem
      nonempty := h.nonempty }
  · exact losesNone_congr (fun id => (hsame id).1) rfl fun _ => .rfl

theorem kept_of_write (hturn : Turns codec state.gateway state.db mover moved)
    (hhanded : moved.handed = some handed) (id : Nat) :
    (∀ event, state.gateway.publishedAt id = some event →
        moved.gateway.publishedAt id = some event) ∧
      (state.gateway.failedAt id = true → moved.gateway.failedAt id = true) := by
  obtain ⟨hunpublished, hunfailed, -, -, -, -, -, hothers⟩ :=
    Gateway.publishedAt_write hturn hhanded
  by_cases hself : id = handed.id
  · subst hself
    simp [hunpublished, hunfailed]
  · rw [(hothers id hself).1, (hothers id hself).2]
    exact ⟨fun _ h => h, fun h => h⟩

theorem Placed.not_mem_of_unpublished (h : Placed codec state) {id : Nat}
    (hunpublished : state.gateway.publishedAt id = none) : id ∉ state.present.map Prod.fst := by
  intro hmem
  obtain ⟨entry, hentry, rfl⟩ := List.mem_map.mp hmem
  obtain ⟨event, hpublished, -⟩ := h.present entry hentry
  rw [hunpublished] at hpublished
  contradiction

def Production.enqueue (state : Production Body Value) (moved : Moved Body Value)
    (handed : Handed Value) : Production Body Value :=
  { state with
    gateway := moved.gateway
    db := moved.db
    queue := state.queue ++ [(handed.id, handed.message)] }

theorem mem_present_enqueue (state : Production Body Value) (moved : Moved Body Value)
    (handed : Handed Value) (entry : Nat × Message Value) :
    entry ∈ (state.enqueue moved handed).present ↔
      entry ∈ state.present ∨ entry = (handed.id, handed.message) := by
  simp only [Production.present, Production.enqueue, List.mem_append, List.mem_singleton]
  tauto

theorem Placed.enqueue (h : Placed codec state)
    (hturn : Turns codec state.gateway state.db mover moved)
    (hhanded : moved.handed = some handed) (hwritten : handed.written = true) :
    Placed codec (state.enqueue moved handed) := by
  obtain ⟨hunpublished, -, event, hvalue, -, hself, -, -⟩ :=
    Gateway.publishedAt_write hturn hhanded
  rw [hwritten, if_pos rfl] at hself
  have hkept := kept_of_write hturn hhanded
  constructor
  · exact h.accounted.turn hturn
  · intro entry hmem
    rcases (mem_present_enqueue state moved handed entry).mp hmem with hold | rfl
    · obtain ⟨other, hpublished, hother⟩ := h.present entry hold
      exact ⟨other, (hkept entry.1).1 other hpublished, hother⟩
    · exact ⟨event, hself, hvalue⟩
  · have hholding : (state.enqueue moved handed).holding.Perm
        ((handed.id, handed.message) :: state.holding) := by
      rw [Production.holding, Production.enqueue, List.append_assoc, List.singleton_append]
      exact List.perm_middle
    refine (hholding.map Prod.fst).nodup_iff.mpr (List.nodup_cons.mpr ⟨fun hmem => ?_, h.held⟩)
    refine h.not_mem_of_unpublished hunpublished ?_
    exact List.map_subset _ (List.subset_append_right _ _) hmem
  · exact fun id hmem => (hkept id).2 (h.refused id hmem)
  · intro id hmem
    obtain ⟨other, hpublished⟩ := Option.isSome_iff_exists.mp (h.discarded id hmem)
    exact Option.isSome_of_eq_some ((hkept id).1 other hpublished)
  · exact h.nonempty

theorem losesNone_enqueue (hturn : Turns codec state.gateway state.db mover moved)
    (hhanded : moved.handed = some handed) :
    (state.enqueue moved handed).LosesNone ↔ state.LosesNone := by
  obtain ⟨hunpublished, -, event, -, -, -, -, hothers⟩ := Gateway.publishedAt_write hturn hhanded
  have hpresent := mem_present_enqueue state moved handed
  constructor
  · intro hnone
    refine ⟨hnone.discarded, fun id hid => ?_⟩
    obtain ⟨other, hpublished⟩ := Option.isSome_iff_exists.mp hid
    have hkept := (kept_of_write hturn hhanded id).1 other hpublished
    obtain ⟨entry, hentry, rfl⟩ :=
      List.mem_map.mp (hnone.published id (Option.isSome_of_eq_some hkept))
    rcases (hpresent entry).mp hentry with hold | rfl
    · exact List.mem_map_of_mem hold
    · rw [hunpublished] at hpublished
      contradiction
  · intro hnone
    refine ⟨hnone.discarded, fun id hid => ?_⟩
    by_cases hself : id = handed.id
    · exact List.mem_map.mpr ⟨_, (hpresent _).mpr (.inr rfl), hself.symm⟩
    · have hbefore : (state.gateway.publishedAt id).isSome = true := (hothers id hself).1 ▸ hid
      obtain ⟨entry, hentry, rfl⟩ := List.mem_map.mp (hnone.published id hbefore)
      exact List.mem_map_of_mem ((hpresent entry).mpr (.inl hentry))

theorem Placed.refusal (h : Placed codec state)
    (hturn : Turns codec state.gateway state.db mover moved)
    (hhanded : moved.handed = some handed) (hwritten : handed.written = false) :
    Placed codec { state with
        gateway := moved.gateway
        db := moved.db
        refused := state.refused ++ [handed.id] } ∧
      (Production.LosesNone { state with
          gateway := moved.gateway
          db := moved.db
          refused := state.refused ++ [handed.id] } ↔ state.LosesNone) := by
  obtain ⟨hunpublished, -, event, -, -, hself, hfailed, hothers⟩ :=
    Gateway.publishedAt_write hturn hhanded
  rw [hwritten] at hself hfailed
  have hkept := kept_of_write hturn hhanded
  have hsame (id : Nat) : moved.gateway.publishedAt id = state.gateway.publishedAt id := by
    by_cases hid : id = handed.id
    · rw [hid, hself, hunpublished]
      rfl
    · exact (hothers id hid).1
  constructor
  · constructor
    · exact h.accounted.turn hturn
    · exact fun entry hmem => (hsame entry.1).symm ▸ h.present entry hmem
    · exact h.held
    · intro id hmem
      rcases List.mem_append.mp hmem with hold | hnew
      · exact (hkept id).2 (h.refused id hold)
      · obtain rfl := List.mem_singleton.mp hnew
        exact hfailed
    · exact fun id hmem => (hsame id).symm ▸ h.discarded id hmem
    · exact h.nonempty
  · exact losesNone_congr hsame rfl fun _ => .rfl

theorem Placed.accept (h : Placed codec state)
    (hturn : Turns codec state.gateway state.db mover moved) :
    Placed codec (state.accept moved) ∧ ((state.accept moved).LosesNone ↔ state.LosesNone) := by
  unfold Production.accept
  cases hhanded : moved.handed with
  | none => exact h.quiet hturn hhanded
  | some handed =>
      cases hwritten : handed.written with
      | true =>
          dsimp only
          rw [if_pos hwritten]
          exact ⟨h.enqueue hturn hhanded hwritten, losesNone_enqueue hturn hhanded⟩
      | false => simpa [hwritten] using h.refusal hturn hhanded hwritten

end Accept

/-! ## Whole runs -/

section Run

variable {codec : Codec Body Value} {maxAttempts : Nat} {db : Db}
  {labels : List (Incident Body)} {state next : Production Body Value}

theorem placed_start (db : Db) : Placed codec (Production.start db : Production Body Value) where
  accounted := Gateway.accounted_init
  present _ h := absurd h List.not_mem_nil
  held := List.nodup_nil
  refused _ h := absurd h List.not_mem_nil
  discarded _ h := absurd h List.not_mem_nil
  nonempty _ h := absurd h List.not_mem_nil

theorem losesNone_start (db : Db) : (Production.start db : Production Body Value).LosesNone :=
  ⟨rfl, fun id hid => by simp [Production.start, Gateway.init, Gateway.publishedAt] at hid⟩

theorem Placed.activity {activity : Activity Body} (h : Placed codec state)
    (hstep : (production codec maxAttempts).step state activity = some next) :
    Placed codec next ∧
      (next.LosesNone ↔ state.LosesNone ∧ KeepsBatch maxAttempts state activity) := by
  cases activity with
  | gateway move =>
      obtain ⟨moved, hmove, rfl⟩ := Option.map_eq_some_iff.mp hstep
      obtain ⟨hplaced, hnone⟩ := h.accept (Gateway.turns_of_move hmove)
      exact ⟨hplaced, hnone.trans (and_iff_left trivial).symm⟩
  | batch requests =>
      simp only [production] at hstep
      split at hstep
      · contradiction
      · next hsome =>
          obtain rfl := Option.some.inj hstep
          obtain ⟨hplaced, hnone⟩ := h.cut requests (Bool.eq_false_iff.mpr hsome)
          exact ⟨hplaced, hnone.trans (and_iff_left trivial).symm⟩
  | attempt index succeeds => exact h.attempt hstep

theorem Placed.step {incident : Incident Body} (h : Placed codec state)
    (hrestart : incident ≠ .restart)
    (hstep : (incidents codec maxAttempts).step state incident = some next) :
    Placed codec next ∧
      (next.LosesNone ↔ state.LosesNone ∧ KeepsEvents maxAttempts state incident) := by
  cases incident with
  | activity activity => exact h.activity hstep
  | appended index =>
      obtain ⟨batch, hfound, hattempt⟩ := Option.bind_eq_some_iff.mp hstep
      obtain ⟨hplaced, hsame⟩ := h.append hfound
      obtain ⟨hnext, hnone⟩ := hplaced.attempt hattempt
      rw [hsame] at hnone
      exact ⟨hnext, hnone⟩
  | missing index =>
      obtain ⟨batch, hfound, rfl⟩ := Option.map_eq_some_iff.mp hstep
      obtain ⟨hnext, hnone⟩ := h.forget hfound
      refine ⟨hnext, hnone.trans (and_congr_right fun _ => ?_)⟩
      simp [KeepsEvents, hfound]
  | restart => contradiction

theorem placed_of_run
    (hrun : (incidents codec maxAttempts).run (Production.start db) labels = some state)
    (hrestart : .restart ∉ labels) :
    Placed codec state ∧
      ((incidents codec maxAttempts).Along (KeepsEvents maxAttempts) (Production.start db) labels ↔
        state.LosesNone) := by
  refine System.run_induction _
    (P := fun labels state => .restart ∉ labels → Placed codec state ∧
      ((incidents codec maxAttempts).Along (KeepsEvents maxAttempts) (Production.start db) labels ↔
        state.LosesNone))
    (fun _ => ⟨placed_start db, iff_of_true trivial (losesNone_start db)⟩) ?_ hrun hrestart
  intro labels state incident next hprevious ih hstep hrestart
  obtain ⟨hplaced, halong⟩ := ih fun hmem => hrestart (List.mem_append_left _ hmem)
  have hincident : incident ≠ .restart := by
    rintro rfl
    exact hrestart (List.mem_append_right _ (List.mem_singleton_self _))
  obtain ⟨hnext, hnone⟩ := hplaced.step hincident hstep
  refine ⟨hnext, ?_⟩
  rw [System.along_concat _ hprevious, halong, hnone]

theorem Placed.kept_iff (h : Placed codec state) : Kept codec state ↔ state.LosesNone := by
  have hunfailed {id : Nat} (hpublished : (state.gateway.publishedAt id).isSome = true) :
      state.gateway.failedAt id = false := by
    obtain ⟨event, hevent⟩ := Option.isSome_iff_exists.mp hpublished
    exact Gateway.failedAt_of_publishedAt hevent
  constructor
  · intro hkept
    constructor
    · refine List.eq_nil_iff_forall_not_mem.mpr fun id hmem => ?_
      have hfailed := hkept.reported id (.inr (.inl hmem))
      rw [hunfailed (h.discarded id hmem)] at hfailed
      contradiction
    · intro id hpublished
      by_contra hgone
      have hfailed := hkept.reported id (.inr (.inr ⟨hpublished, hgone⟩))
      rw [hunfailed hpublished] at hfailed
      contradiction
  · intro hnone
    constructor
    · intro id handler hfound hingested
      have hpublished : state.gateway.publishedAt id = some handler.event := by
        simp [Gateway.publishedAt, hfound, Handler.published_of_ingested hingested]
      obtain ⟨⟨_, message⟩, hmem, rfl⟩ := List.mem_map.mp
        (hnone.published id (Option.isSome_of_eq_some hpublished))
      obtain ⟨event, hevent, hvalue⟩ := h.present _ hmem
      obtain rfl := Option.some.inj (hpublished.symm.trans hevent)
      exact ⟨message, hvalue, hmem⟩
    · rintro id (hrefused | hdiscarded | ⟨hpublished, hgone⟩)
      · exact h.refused id hrefused
      · simp [hnone.discarded] at hdiscarded
      · exact absurd (hnone.published id hpublished) hgone
    · exact ⟨h.accounted.ingested, h.accounted.rejected .kafkaError⟩

/--
In every run in which the gateway does not crash the acknowledged events are
kept, and the events given up on reported, exactly when no batch was given up at
its last attempt and none was taken for sent while the topic missed its events.
-/
theorem kept_iff_keepsEvents
    (hrun : (incidents codec maxAttempts).run (Production.start db) labels = some state)
    (hrestart : .restart ∉ labels) :
    Kept codec state ↔
      (incidents codec maxAttempts).Along (KeepsEvents maxAttempts) (Production.start db)
        labels := by
  obtain ⟨hplaced, halong⟩ := placed_of_run hrun hrestart
  rw [hplaced.kept_iff, halong]

def acceptedLogin : List (Incident String) :=
  ([.request loginBody, .compute 0, .compute 0, .compute 0, .compute 0, .readClock 0 5,
    .redis 0 5 .replied, .redis 0 5 .replied, .redis 0 5 .replied, .redis 0 5 .replied,
    .compute 0, .write 0 true, .compute 0, .compute 0, .compute 0].map
      fun move : Move String => .activity (.gateway move)) ++ [.activity (.batch [0])]

theorem kept_iff_keepsEvents_recovering :
    ∃ state, (incidents loginCodec 10).run (Production.start fun _ => none)
        (acceptedLogin ++ [.activity (.attempt 0 false), .appended 0, .missing 0]) = some state ∧
      Kept loginCodec state := by
  have hrun : (incidents loginCodec 10).run (Production.start fun _ => none)
    (acceptedLogin ++ [.activity (.attempt 0 false), .appended 0, .missing 0]) = some _ := rfl
  exact ⟨_, hrun, (kept_iff_keepsEvents hrun (by simp [acceptedLogin])).mpr (by decide)⟩

/-- Ten failing attempts: the request was answered 202 and its event is gone. -/
theorem not_kept_ten_failures :
    ∃ state, (incidents loginCodec 10).run (Production.start fun _ => none)
        (acceptedLogin ++ List.replicate 10 (.activity (.attempt 0 false))) = some state ∧
      state.gateway.handlers = [⟨loginEvent, .finished accepted⟩] ∧
      state.gateway.metrics.eventsIngested = 1 ∧ state.present = [] ∧
      ¬ Kept loginCodec state := by
  refine ⟨_, rfl, rfl, rfl, rfl, fun hkept => ?_⟩
  obtain ⟨message, -, hmem⟩ := hkept.acknowledged 0 _ rfl rfl
  exact absurd hmem List.not_mem_nil

end Run

end NexPulse.Ingest
