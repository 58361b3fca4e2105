import NexPulse.Ingest.Writer

/-!
# The ledger of the writer

The writer holds its messages in memory, so all of them are gone when the
process of the gateway dies.  Over any run, the events for which WriteMessages
has returned nil, by this process or an earlier one, together with the copies
that were appended too often, are those of the messages in the topic, in the
hands of the writer, and lost before the topic.
-/

namespace NexPulse.Ingest

open NexPulse.Foundation NexPulse.Foundation.Redis NexPulse.RateLimit

variable {Body Value : Type*}

namespace Production

def messages (state : Production Body Value) : List (Message Value) := state.present.map Prod.snd

def discards (maxAttempts : Nat) (state : Production Body Value) :
    Activity Body → List (Message Value)
  | .attempt index false =>
      match state.batches[index]? with
      | some batch =>
          if batch.attempts + 1 < maxAttempts then [] else batch.messages.map Prod.snd
      | none => []
  | .gateway _ | .batch _ | .attempt _ true => []

def held (state : Production Body Value) : List (Message Value) :=
  (state.queue ++ state.batches.flatMap Batch.messages).map Prod.snd

/-- The messages that the writer holds no more, and has not delivered as far as it knows. -/
def drops (maxAttempts : Nat) (state : Production Body Value) :
    Incident Body → List (Message Value)
  | .activity activity => state.discards maxAttempts activity
  | .appended index => state.discards maxAttempts (.attempt index false)
  | .missing index => (state.batches[index]?.toList.flatMap Batch.messages).map Prod.snd
  | .restart => state.held

def copies (state : Production Body Value) : Incident Body → List (Message Value)
  | .appended index => (state.batches[index]?.toList.flatMap Batch.messages).map Prod.snd
  | .activity _ | .missing _ | .restart => []

end Production

section Step

variable {codec : Codec Body Value} {maxAttempts : Nat} {state next : Production Body Value}
  {activity : Activity Body}

def Production.retires (state : Production Body Value) : Incident Body → List Event
  | .restart => state.gateway.published
  | .activity _ | .appended _ | .missing _ => []

theorem messages_attempt {index : Nat} {succeeds : Bool}
    (hstep : (production codec maxAttempts).step state (.attempt index succeeds) = some next) :
    next.gateway = state.gateway ∧ next.db = state.db ∧
      state.messages.Perm
        (next.messages ++ state.discards maxAttempts (.attempt index succeeds)) := by
  obtain ⟨batch, hfound, hnext⟩ := Option.map_eq_some_iff.mp hstep
  cases succeeds with
  | true =>
      obtain rfl : state.deliver index batch = next := hnext
      refine ⟨rfl, rfl, ?_⟩
      rw [Production.discards, List.append_nil]
      exact ((present_deliver hfound).map Prod.snd).symm
  | false =>
      simp only [Production.discards, hfound]
      by_cases hattempts : batch.attempts + 1 < maxAttempts
      · obtain rfl : state.retry index batch = next := by simpa [hattempts] using hnext
        refine ⟨rfl, rfl, ?_⟩
        rw [if_pos hattempts, List.append_nil, Production.messages, Production.messages,
          present_retry hfound]
      · obtain rfl : state.discard index batch = next := by simpa [hattempts] using hnext
        refine ⟨rfl, rfl, ?_⟩
        rw [if_neg hattempts]
        refine ((present_discard hfound).map Prod.snd).trans ?_
        rw [List.map_append]
        exact List.perm_append_comm

theorem messages_batch {requests : List Nat}
    (hstep : (production codec maxAttempts).step state (.batch requests) = some next) :
    next.gateway = state.gateway ∧ next.db = state.db ∧ next.messages.Perm state.messages := by
  simp only [production] at hstep
  split at hstep
  · contradiction
  · obtain rfl := Option.some.inj hstep
    exact ⟨rfl, rfl, (present_cut requests).map Prod.snd⟩

theorem messages_accept (state : Production Body Value) (moved : Moved Body Value) :
    (state.accept moved).gateway = moved.gateway ∧ (state.accept moved).db = moved.db ∧
      (state.accept moved).topic = state.topic ∧
      (state.accept moved).messages.Perm (state.messages ++ moved.written) := by
  unfold Production.accept Moved.written
  cases moved.handed with
  | none =>
      refine ⟨rfl, rfl, rfl, ?_⟩
      rw [List.append_nil]
      exact .refl _
  | some handed =>
      cases hwritten : handed.written with
      | false =>
          simp only [hwritten, Bool.false_eq_true, if_false, List.append_nil]
          exact ⟨trivial, trivial, trivial, .refl _⟩
      | true =>
          simp only [hwritten, if_true]
          refine ⟨trivial, trivial, trivial, ?_⟩
          simp only [Production.messages, Production.present, List.map_append, List.map_cons,
            List.map_nil, List.append_assoc]
          exact (List.perm_append_comm.append_left _).append_left _

end Step

/-! ## Whole runs -/

/--
The decoded messages, those lost included, are the published events and the
messages appended once more.
-/
structure Dispatched (codec : Codec Body Value) (state : Production Body Value)
    (retired : List Event) (copied dropped : List (Message Value)) : Prop where
  accounted : state.gateway.Accounted codec
  published : ((state.messages ++ dropped).map fun message => codec.unmarshal message.value).Perm
    ((retired ++ state.gateway.published).map some ++
      copied.map fun message => codec.unmarshal message.value)

section Run

variable {codec : Codec Body Value} {maxAttempts : Nat} {state next : Production Body Value}
  {incident : Incident Body} {retired : List Event} {copied dropped : List (Message Value)}

theorem Dispatched.extend (h : Dispatched codec state retired copied dropped)
    (haccounted : next.gateway.Accounted codec) (written : List (Message Value))
    {past : List Event} {more lost : List (Message Value)}
    (hmessages : (next.messages ++ lost).Perm (state.messages ++ written ++ more))
    (hpublished : ((past ++ next.gateway.published).map some).Perm
      (state.gateway.published.map some ++
        written.map fun message => codec.unmarshal message.value)) :
    Dispatched codec next (retired ++ past) (copied ++ more) (dropped ++ lost) := by
  classical
  refine ⟨haccounted, List.perm_iff_count.mpr fun event => ?_⟩
  have hold := List.perm_iff_count.mp h.published event
  have hmoved := List.perm_iff_count.mp
    (hmessages.map fun message => codec.unmarshal message.value) event
  have hnew := List.perm_iff_count.mp hpublished event
  simp only [List.map_append, List.count_append] at hold hmoved hnew ⊢
  omega

theorem Dispatched.keep (h : Dispatched codec state retired copied dropped)
    (hgateway : next.gateway = state.gateway) {more lost : List (Message Value)}
    (hmessages : (next.messages ++ lost).Perm (state.messages ++ more)) :
    Dispatched codec next (retired ++ []) (copied ++ more) (dropped ++ lost) := by
  refine h.extend (hgateway ▸ h.accounted) [] ?_ ?_
  · rwa [List.append_nil]
  · rw [hgateway, List.nil_append, List.map_nil, List.append_nil]

theorem messages_append (state : Production Body Value) (batch : Batch Value) :
    (state.append batch).messages.Perm (state.messages ++ batch.messages.map Prod.snd) := by
  have happend := (present_append state batch).map Prod.snd
  rw [List.map_append] at happend
  exact happend.trans List.perm_append_comm

theorem Dispatched.activity {activity : Activity Body} (hcodec : codec.RoundTrip)
    (h : Dispatched codec state retired copied dropped)
    (hstep : (production codec maxAttempts).step state activity = some next) :
    Dispatched codec next (retired ++ []) (copied ++ [])
        (dropped ++ state.discards maxAttempts activity) ∧
      LimiterOnly state.db next.db := by
  cases activity with
  | gateway move =>
      obtain ⟨moved, hmove, rfl⟩ := Option.map_eq_some_iff.mp hstep
      have hturn := Gateway.turns_of_move hmove
      obtain ⟨hgateway, hdb, -, hmessages⟩ := messages_accept state moved
      refine ⟨h.extend (hgateway ▸ h.accounted.turn hturn) moved.written ?_ ?_,
        hdb ▸ limiterOnly_of_turn hturn⟩
      · rw [Production.discards, List.append_nil, List.append_nil]
        exact hmessages
      · rw [List.nil_append, hgateway]
        exact published_turn hcodec h.accounted hturn
  | batch requests =>
      obtain ⟨hgateway, hdb, hmessages⟩ := messages_batch hstep
      exact ⟨h.keep hgateway (hmessages.append_right []), .inl hdb⟩
  | attempt index succeeds =>
      obtain ⟨hgateway, hdb, hmessages⟩ := messages_attempt hstep
      refine ⟨h.keep hgateway ?_, .inl hdb⟩
      rw [List.append_nil]
      exact hmessages.symm

theorem Dispatched.step (hcodec : codec.RoundTrip)
    (h : Dispatched codec state retired copied dropped)
    (hstep : (incidents codec maxAttempts).step state incident = some next) :
    Dispatched codec next (retired ++ state.retires incident) (copied ++ state.copies incident)
        (dropped ++ state.drops maxAttempts incident) ∧
      LimiterOnly state.db next.db := by
  cases incident with
  | activity activity => exact h.activity hcodec hstep
  | appended index =>
      obtain ⟨batch, hfound, hattempt⟩ := Option.bind_eq_some_iff.mp hstep
      obtain ⟨hgateway, hdb, hmessages⟩ := messages_attempt hattempt
      refine ⟨h.keep hgateway ?_, .inl hdb⟩
      simp only [Production.copies, hfound, Option.toList_some, List.flatMap_singleton]
      exact hmessages.symm.trans (messages_append state batch)
  | missing index =>
      obtain ⟨batch, hfound, hnext⟩ := Option.map_eq_some_iff.mp hstep
      have hgateway : next.gateway = state.gateway := hnext ▸ rfl
      refine ⟨h.keep hgateway ?_, .inl (hnext ▸ rfl)⟩
      subst hnext
      simp only [Production.drops, Production.copies, hfound, Option.toList_some,
        List.flatMap_singleton, List.append_nil]
      have hpresent := (present_forget hfound).map Prod.snd
      rw [List.map_append] at hpresent
      exact List.perm_append_comm.trans hpresent.symm
  | restart =>
      obtain rfl := Option.some.inj hstep
      refine ⟨h.extend Gateway.accounted_init [] ?_ ?_, .inl rfl⟩
      · simp only [Production.drops, Production.copies, Production.messages, Production.present,
          Production.restart, Production.held, Production.start, List.append_nil,
          List.flatMap_nil, ← List.map_append]
        exact .refl _
      · simp only [Production.retires, Production.restart, Production.start, Gateway.published,
          Gateway.init, List.filterMap_nil, List.append_nil, List.map_nil]
        exact .refl _

end Run

end NexPulse.Ingest
