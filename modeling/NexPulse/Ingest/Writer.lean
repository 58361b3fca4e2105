import NexPulse.Foundation.Transition
import NexPulse.Ingest.Accounting
import Mathlib.Tactic.Abel

/-!
# The asynchronous writer

With `Async: true`, WriteMessages returns once a message is queued.  The writer
cuts the queue into batches and tries each of them a bounded number of times;
after the last attempt it drops the batch, and since `InitProducer` sets no
Completion callback no one learns of it.  Neither does it set `RequiredAcks`, so
the brokers acknowledge nothing: a batch may be appended although the attempt is
taken for failed, or lost although it is taken for sent.  Every message carries
the number of its request.
-/

namespace NexPulse.Ingest

open NexPulse.Foundation NexPulse.Foundation.Redis NexPulse.RateLimit

structure Batch (Value : Type*) where
  messages : List (Nat × Message Value)
  attempts : Nat

structure Production (Body Value : Type*) where
  gateway : Gateway Body
  db : Db
  queue : List (Nat × Message Value)
  batches : List (Batch Value)
  topic : List (Nat × Message Value)
  refused : List Nat
  -- The requests whose messages were dropped after the last attempt.
  discarded : List Nat

inductive Activity (Body : Type*) where
  | gateway (move : Move Body)
  | batch (requests : List Nat)
  | attempt (index : Nat) (succeeds : Bool)

variable {Body Value : Type*}

namespace Production

def start (db : Db) : Production Body Value := ⟨.init, db, [], [], [], [], []⟩

def accept (state : Production Body Value) (moved : Moved Body Value) : Production Body Value :=
  let after := { state with gateway := moved.gateway, db := moved.db }
  match moved.handed with
  | none => after
  | some handed =>
      if handed.written then { after with queue := after.queue ++ [(handed.id, handed.message)] }
      else { after with refused := after.refused ++ [handed.id] }

def cut (state : Production Body Value) (requests : List Nat) : Production Body Value :=
  { state with
    queue := state.queue.filter fun entry => entry.1 ∉ requests
    batches := state.batches ++ [⟨state.queue.filter fun entry => entry.1 ∈ requests, 0⟩] }

def deliver (state : Production Body Value) (index : Nat) (batch : Batch Value) :
    Production Body Value :=
  { state with
    batches := state.batches.eraseIdx index
    topic := state.topic ++ batch.messages }

def retry (state : Production Body Value) (index : Nat) (batch : Batch Value) :
    Production Body Value :=
  { state with
    batches := state.batches.set index { batch with attempts := batch.attempts + 1 } }

def discard (state : Production Body Value) (index : Nat) (batch : Batch Value) :
    Production Body Value :=
  { state with
    batches := state.batches.eraseIdx index
    discarded := state.discarded ++ batch.messages.map Prod.fst }

/-- The messages that are in the topic or held by the writer, with their requests. -/
def present (state : Production Body Value) : List (Nat × Message Value) :=
  state.topic ++ (state.queue ++ state.batches.flatMap Batch.messages)

end Production

/-- The gateway with its writer; `maxAttempts` is the writer's setting of that name. -/
def production (codec : Codec Body Value) (maxAttempts : Nat) :
    System (Production Body Value) (Activity Body) where
  step state
    | .gateway move => (state.gateway.move codec state.db move).map state.accept
    | .batch requests =>
        if (state.queue.filter fun entry => entry.1 ∈ requests).isEmpty then none
        else some (state.cut requests)
    | .attempt index succeeds =>
        state.batches[index]?.map fun batch =>
          if succeeds then state.deliver index batch
          else if batch.attempts + 1 < maxAttempts then state.retry index batch
          else state.discard index batch

namespace Production

def append (state : Production Body Value) (batch : Batch Value) : Production Body Value :=
  { state with topic := state.topic ++ batch.messages }

def forget (state : Production Body Value) (index : Nat) : Production Body Value :=
  { state with batches := state.batches.eraseIdx index }

/-- The process dies and starts again: its requests and what the writer holds are gone. -/
def restart (state : Production Body Value) : Production Body Value :=
  { start state.db with topic := state.topic }

end Production

inductive Incident (Body : Type*) where
  | activity (activity : Activity Body)
  -- The attempt is taken for failed, but the broker appends the batch.
  | appended (index : Nat)
  -- The attempt is taken for successful, but the batch does not get to the broker.
  | missing (index : Nat)
  | restart

def incidents (codec : Codec Body Value) (maxAttempts : Nat) :
    System (Production Body Value) (Incident Body) where
  step state
    | .activity activity => (production codec maxAttempts).step state activity
    | .appended index =>
        state.batches[index]?.bind fun batch =>
          (production codec maxAttempts).step (state.append batch) (.attempt index false)
    | .missing index => state.batches[index]?.map fun _ => state.forget index
    | .restart => some state.restart

/-! ## Where the messages are -/

section Present

variable {state : Production Body Value} {index : Nat} {batch : Batch Value}

theorem flatMap_perm (h : state.batches[index]? = some batch) :
    (state.batches.flatMap Batch.messages).Perm
      (batch.messages ++ (state.batches.eraseIdx index).flatMap Batch.messages) := by
  obtain ⟨hlt, rfl⟩ := List.getElem?_eq_some_iff.mp h
  exact (List.getElem_cons_eraseIdx_perm hlt).symm.flatMap_right _

theorem present_cut (requests : List Nat) : (state.cut requests).present.Perm state.present := by
  have hsplit := List.filter_append_perm (fun entry => decide (entry.1 ∈ requests)) state.queue
  simp only [← Multiset.coe_eq_coe, ← Multiset.coe_add] at hsplit ⊢
  simp only [Production.present, Production.cut, List.flatMap_append, List.flatMap_singleton,
    ← Multiset.coe_add, ← hsplit, decide_not]
  abel

theorem present_deliver (h : state.batches[index]? = some batch) :
    (state.deliver index batch).present.Perm state.present := by
  have hsplit := flatMap_perm h
  simp only [← Multiset.coe_eq_coe, ← Multiset.coe_add] at hsplit ⊢
  simp only [Production.present, Production.deliver, ← Multiset.coe_add, hsplit]
  abel

theorem present_retry (h : state.batches[index]? = some batch) :
    (state.retry index batch).present = state.present := by
  have hsplit := congrArg (List.flatMap Batch.messages) (Pool.eq_take_append_cons_drop h)
  simp only [Production.present, Production.retry, hsplit, Pool.set_eq_take_append_cons_drop _ h,
    List.flatMap_append, List.flatMap_cons]

theorem present_append (state : Production Body Value) (batch : Batch Value) :
    (state.append batch).present.Perm (batch.messages ++ state.present) := by
  simp only [← Multiset.coe_eq_coe, ← Multiset.coe_add, Production.present, Production.append]
  abel

theorem present_forget (h : state.batches[index]? = some batch) :
    state.present.Perm (batch.messages ++ (state.forget index).present) := by
  have hsplit := flatMap_perm h
  simp only [← Multiset.coe_eq_coe, ← Multiset.coe_add] at hsplit ⊢
  simp only [Production.present, Production.forget, ← Multiset.coe_add, hsplit]
  abel

theorem present_discard (h : state.batches[index]? = some batch) :
    state.present.Perm (batch.messages ++ (state.discard index batch).present) :=
  present_forget h

end Present

end NexPulse.Ingest
