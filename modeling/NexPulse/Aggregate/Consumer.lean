import NexPulse.Foundation.Transition
import NexPulse.Aggregate.Aggregator

/-!
# Consuming the log

The reader hands the messages of the log to the loop in order.  ReadMessage
queues the offset of the message it returns, so every offset below `position`
may be committed, and the background timer commits some of them at any moment.
After a crash the process starts again at the committed offset; of the pipeline
under way Redis may still execute commands that it had received.
-/

namespace NexPulse.Aggregate

open NexPulse.Foundation NexPulse.Foundation.Redis NexPulse.RateLimit NexPulse.Ingest

structure Consumer (Value : Type*) where
  -- The offset of the next message that ReadMessage returns.
  position : Nat
  committed : Nat
  loop : Loop Value
  db : Db
  -- The commands that Redis has executed, each with the offset of its message.
  applied : List (Nat × Command)

inductive Action where
  | read
  | readError
  | work (outcome : Outcome)
  | flush (offset : Nat)
  | crash (received : Nat)
  deriving DecidableEq

variable {Body Value : Type*}

def Consumer.start (db : Db) : Consumer Value := ⟨0, 0, .init, db, []⟩

def Point.inFlight : Point Value → List Command
  | .executing _ queued _ => queued
  | _ => []

def Consumer.tag (state : Consumer Value) (commands : List Command) : List (Nat × Command) :=
  commands.map fun command => (state.position - 1, command)

/-- The process dies; Redis executes the first `received` commands of its pipeline. -/
def Consumer.crash (state : Consumer Value) (received : Nat) : Consumer Value where
  position := state.committed
  committed := state.committed
  loop := .init
  db := (execAll 0 (state.loop.point.inFlight.take received) state.db).2
  applied := state.applied ++ state.tag (state.loop.point.inFlight.take received)

def consumer (codec : Codec Body Value) (log : List (Message Value)) :
    System (Consumer Value) Action where
  step state
    | .read =>
        match state.loop.point, log[state.position]? with
        | .head, some message =>
            some { state with
              position := state.position + 1
              loop := { state.loop with point := .consumed message } }
        | _, _ => none
    | .readError =>
        match state.loop.point with
        | .head => some state
        | _ => none
    | .work outcome =>
        (state.loop.work codec outcome state.db).map fun result =>
          { state with
            loop := result.1
            db := result.2
            applied := state.applied ++ state.tag (state.loop.point.executes outcome) }
    | .flush offset =>
        if state.committed ≤ offset ∧ offset ≤ state.position then
          some { state with committed := offset }
        else none
    | .crash received => some (state.crash received)

def Consumer.Consumed (log : List (Message Value)) (state : Consumer Value) : Prop :=
  state.loop.point = .head ∧ state.position = log.length

inductive Stepped (codec : Codec Body Value) (log : List (Message Value))
    (state : Consumer Value) : Action → Consumer Value → Prop where
  | read (message : Message Value) (head : state.loop.point = .head)
      (found : log[state.position]? = some message) :
      Stepped codec log state .read { state with
        position := state.position + 1
        loop := { state.loop with point := .consumed message } }
  | readError : Stepped codec log state .readError state
  | work (outcome : Outcome) (loop : Loop Value) (db : Db)
      (worked : Worked codec outcome state.loop loop state.db db) :
      Stepped codec log state (.work outcome) { state with
        loop := loop
        db := db
        applied := state.applied ++ state.tag (state.loop.point.executes outcome) }
  | flush (offset : Nat) (above : state.committed ≤ offset) (below : offset ≤ state.position) :
      Stepped codec log state (.flush offset) { state with committed := offset }
  | crash (received : Nat) : Stepped codec log state (.crash received) (state.crash received)

theorem stepped_of_step {codec : Codec Body Value} {log : List (Message Value)}
    {state next : Consumer Value} {action : Action}
    (h : (consumer codec log).step state action = some next) :
    Stepped codec log state action next := by
  cases action with
  | read =>
      simp only [consumer] at h
      split at h
      · next message hhead hfound =>
          obtain rfl := Option.some.inj h
          exact .read message hhead hfound
      · contradiction
  | readError =>
      simp only [consumer] at h
      split at h
      · obtain rfl := Option.some.inj h
        exact .readError
      · contradiction
  | work outcome =>
      obtain ⟨⟨loop, db⟩, hwork, rfl⟩ := Option.map_eq_some_iff.mp h
      exact .work outcome loop db (Loop.work_spec hwork)
  | flush offset =>
      simp only [consumer] at h
      split at h
      · next hoffset =>
          obtain rfl := Option.some.inj h
          exact .flush offset hoffset.1 hoffset.2
      · contradiction
  | crash received =>
      obtain rfl := Option.some.inj h
      exact .crash received

/-! ## What the log calls for -/

def updatesAt (codec : Codec Body Value) (log : List (Message Value)) (offset : Nat) :
    List Command :=
  match log[offset]? with
  | some message => updatesOf codec message
  | none => []

def due (codec : Codec Body Value) (log : List (Message Value)) (offset : Nat) :
    List (Nat × Command) :=
  (updatesAt codec log offset).map fun command => (offset, command)

/-- The commands that the messages from `first` up to `last` call for, in order. -/
def dueBetween (codec : Codec Body Value) (log : List (Message Value)) (first last : Nat) :
    List (Nat × Command) :=
  (List.range' first (last - first)).flatMap (due codec log)

section Due

variable {codec : Codec Body Value} {log : List (Message Value)}

theorem updatesAt_of_getElem? {offset : Nat} {message : Message Value}
    (h : log[offset]? = some message) : updatesAt codec log offset = updatesOf codec message := by
  simp [updatesAt, h]

@[simp] theorem dueBetween_self (offset : Nat) : dueBetween codec log offset offset = [] := by
  simp [dueBetween]

theorem dueBetween_append {first middle last : Nat} (hfirst : first ≤ middle)
    (hlast : middle ≤ last) :
    dueBetween codec log first middle ++ dueBetween codec log middle last =
      dueBetween codec log first last := by
  have hmiddle : middle = first + 1 * (middle - first) := by omega
  rw [dueBetween, dueBetween, ← List.flatMap_append]
  congr 1
  conv_lhs => enter [2, 1]; rw [hmiddle]
  rw [List.range'_append]
  congr 1
  omega

theorem dueBetween_succ {last : Nat} (first : Nat) (h : first ≤ last) :
    dueBetween codec log first (last + 1) =
      dueBetween codec log first last ++ due codec log last := by
  rw [← dueBetween_append h (Nat.le_succ last)]
  simp [dueBetween]

end Due

/-! ## The message under way -/

structure Consumer.Reading (log : List (Message Value)) (state : Consumer Value) : Prop where
  current : ∀ message, state.loop.point.message? = some message →
    0 < state.position ∧ log[state.position - 1]? = some message
  committed_le : state.committed ≤ state.position

theorem Consumer.reading_start (log : List (Message Value)) (db : Db) :
    (Consumer.start db).Reading log :=
  ⟨(fun _ hmessage => nomatch hmessage), le_rfl⟩

theorem Consumer.Reading.step {codec : Codec Body Value} {log : List (Message Value)}
    {state next : Consumer Value} {action : Action} (h : state.Reading log)
    (hstep : Stepped codec log state action next) : next.Reading log := by
  cases hstep with
  | read message hhead hfound =>
      refine ⟨fun other hother => ⟨Nat.succ_pos _, ?_⟩, Nat.le_succ_of_le h.committed_le⟩
      obtain rfl : message = other := Option.some.inj hother
      exact hfound
  | readError => exact h
  | work outcome loop db hworked =>
      exact ⟨fun message hmessage => h.current message (hworked.message message hmessage),
        h.committed_le⟩
  | flush offset habove hbelow => exact ⟨h.current, hbelow⟩
  | crash received => exact ⟨(fun _ hmessage => nomatch hmessage), le_rfl⟩

/-- What was executed, and what the iteration under way has still to get executed. -/
def Consumer.planned (codec : Codec Body Value) (state : Consumer Value) : List (Nat × Command) :=
  state.applied ++ state.tag (state.loop.point.pending codec)

section Planned

variable {codec : Codec Body Value} {log : List (Message Value)} {state next : Consumer Value}

theorem Consumer.planned_read (codec : Codec Body Value) {message : Message Value}
    (hhead : state.loop.point = .head) (hfound : log[state.position]? = some message) :
    ({ state with
        position := state.position + 1
        loop := { state.loop with point := .consumed message } } : Consumer Value).planned codec =
      state.planned codec ++ due codec log state.position := by
  simp [planned, tag, hhead, Point.pending, due, updatesAt_of_getElem? hfound]

theorem Consumer.planned_work {outcome : Outcome} {loop : Loop Value} {db : Db}
    (hworked : Worked codec outcome state.loop loop state.db db)
    (hkept : state.loop.point.Kept outcome) :
    ({ state with
        loop := loop
        db := db
        applied := state.applied ++ state.tag (state.loop.point.executes outcome) } :
      Consumer Value).planned codec = state.planned codec := by
  simp only [planned, tag, ← hworked.kept hkept]
  simp

end Planned

end NexPulse.Aggregate
