import NexPulse.Ingest.Outcomes

/-!
# Every request can be answered

A handler takes at most fourteen steps, and until it has answered it is never
waiting for another handler: some step of its own is always possible.
-/

namespace NexPulse.Ingest

open NexPulse.Foundation NexPulse.Foundation.Redis NexPulse.RateLimit

variable {Body Value : Type*}

def Point.remaining : Point Body → Nat
  | .entered _ => 14
  | .binding _ => 13
  | .checking => 12
  | .pinging _ => 11
  | .readingClock _ => 10
  | .limiting _ _ replies => 5 + (4 - replies.length)
  | .limited | .producing => 4
  | .counting | .rejecting _ => 3
  | .responding _ => 2
  | .leaving _ => 1
  | .finished _ => 0

section Step

variable {codec : Codec Body Value} {event : Event} {old : Metrics} {point : Point Body}
  {after : Handler Body} {effect : Effect Value}

theorem Goes.remaining_lt (h : Goes codec event old point after effect) :
    after.point.remaining < point.remaining := by
  cases h with
  | write message written => cases written <;> simp [Point.remaining]
  | reply userID now replies reply command asked | limiterDown userID now replies command asked =>
      have unfinished : replies.length < 4 := (List.getElem?_eq_some_iff.mp asked).1
      simp only [Point.remaining, List.length_append, List.length_singleton]
      omega
  | limiterOpen | limiterDenied =>
      simp only [Point.remaining]
      omega
  | _ => simp [Point.remaining]

theorem Life.length_le {changes : List (Change Body Value)} {handler : Handler Body}
    (h : Life codec changes handler) : changes.length + handler.point.remaining ≤ 14 := by
  induction h with
  | entered body => simp [Point.remaining]
  | step id life goes ih =>
      have hlower := goes.remaining_lt
      rw [List.length_append, List.length_singleton]
      omega

end Step

theorem finished_of_halt {codec : Codec Body Value} {handler : Handler Body} {metrics : Metrics}
    (h : handler.step codec metrics = .halt) :
    ∃ response, handler.point = .finished response := by
  obtain ⟨event, point⟩ := handler
  cases point with
  | finished response => exact ⟨response, rfl⟩
  | limiting userID now replies =>
      simp only [Handler.step] at h
      split at h
      · cases h
      · split at h <;> cases h
  | binding | checking =>
      simp only [Handler.step] at h
      split at h <;> cases h
  | producing =>
      simp only [Handler.step] at h
      split at h
      · cases h
      · split at h <;> cases h
  | _ => cases h

section Run

variable {codec : Codec Body Value} {db : Db} {labels : List (Happening Body)}
  {state : Ledger Body Value} {id : Nat}

theorem exists_move {before : Handler Body} (hfound : state.gateway.handlers[id]? = some before)
    (hopen : ∀ response, before.point ≠ .finished response) :
    ∃ move moved, move.mover = some id ∧ state.gateway.move codec state.db move = some moved := by
  have hmove : ∃ move : Move Body, move.mover = some id ∧
      (state.gateway.move codec state.db move).isSome := by
    cases hstep : before.step codec state.gateway.metrics with
    | compute | ping =>
        exact ⟨.compute id, rfl, by simp [Gateway.move, Gateway.next, hfound, hstep]⟩
    | readClock after =>
        exact ⟨.readClock id 0, rfl, by simp [Gateway.move, Gateway.next, hfound, hstep]⟩
    | redis command after =>
        exact ⟨.redis id 0 .replied, rfl, by simp [Gateway.move, Gateway.next, hfound, hstep]⟩
    | writeMessages message after =>
        exact ⟨.write id true, rfl, by simp [Gateway.move, Gateway.next, hfound, hstep]⟩
    | halt =>
        obtain ⟨response, hfinished⟩ := finished_of_halt hstep
        exact absurd hfinished (hopen response)
  obtain ⟨move, hmover, hsome⟩ := hmove
  obtain ⟨moved, hmoved⟩ := Option.isSome_iff_exists.mp hsome
  exact ⟨move, moved, hmover, hmoved⟩

def Ledger.remaining (state : Ledger Body Value) (id : Nat) : Nat :=
  (state.gateway.handlers[id]?.map fun handler => handler.point.remaining).getD 0

def Ledger.Answered (state : Ledger Body Value) (id : Nat) : Prop :=
  ∃ event response, state.gateway.handlers[id]? = some ⟨event, .finished response⟩

def Happening.mover? : Happening Body → Option Nat
  | .move taken => taken.mover
  | .others _ => none

theorem exists_step (hknown : id < state.gateway.handlers.length) (hopen : ¬ state.Answered id) :
    ∃ happening next, happening.mover? = some id ∧
      (ledger codec).step state happening = some next ∧
      id < next.gateway.handlers.length ∧ next.remaining id < state.remaining id := by
  have hfound := List.getElem?_eq_getElem hknown
  obtain ⟨move, moved, hmover, hmoved⟩ := @exists_move _ _ codec _ _ _ hfound
    fun response hfinished => hopen ⟨_, response, by rw [hfound, ← hfinished]⟩
  have hstep : (ledger codec).step state (.move move) = some (state.record move.mover moved) := by
    simp [ledger, hmoved]
  have hturns := Gateway.turns_of_move hmoved
  rw [hmover] at hturns
  refine ⟨.move move, _, hmover, hstep, ?_⟩
  rw [hmover]
  cases hturns with
  | handler _ before after effect next hbefore hgoes =>
      have hlower := hgoes.remaining_lt
      simp only [Ledger.record, Ledger.remaining, List.length_set, hbefore,
        List.getElem?_set_self hknown, Option.map_some, Option.getD_some]
      exact ⟨hknown, hlower⟩

/--
In every run the steps that a request has taken and those still to come are at
most fourteen, and from every state its own steps alone can bring it to its
answer, however the other requests stand.
-/
theorem request_answerable (hrun : (ledger codec).run (Ledger.start db) labels = some state)
    (hknown : id < state.gateway.handlers.length) :
    (state.changesOf id).length + state.remaining id ≤ 14 ∧
      ∃ later final, (∀ happening ∈ later, happening.mover? = some id) ∧
        later.length ≤ state.remaining id ∧ (ledger codec).run state later = some final ∧
        final.Answered id := by
  have hfound := List.getElem?_eq_getElem hknown
  constructor
  · have hlength := ((recorded_of_run hrun).lives.life id _ hfound).length_le
    rw [Ledger.remaining, hfound]
    exact hlength
  · obtain ⟨later, final, hmover, hlength, hlater, -, hanswered⟩ :=
      (ledger codec).run_to_goal (fun state hknown hopen => exists_step hknown hopen) hknown
    exact ⟨later, final, hmover, hlength, hlater, hanswered⟩

theorem request_answerable_two_requests :
    ∃ state, (ledger loginCodec).run (.start fun _ => none) (twoRequests.take 8) = some state ∧
      (state.changesOf 0).length = 4 ∧ ∃ later final, later.length ≤ 10 ∧
        (ledger loginCodec).run state later = some final ∧ final.Answered 0 := by
  have hrun : (ledger loginCodec).run (Ledger.start fun _ => none) (twoRequests.take 8) =
      some _ := rfl
  obtain ⟨-, later, final, -, hlength, hlater, hanswered⟩ :=
    @request_answerable _ _ _ _ _ _ 0 hrun (by decide)
  exact ⟨_, hrun, rfl, later, final, hlength, hlater, hanswered⟩

end Run

end NexPulse.Ingest
