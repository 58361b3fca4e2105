import NexPulse.Query.HubRegistry
import Mathlib.Data.List.TakeWhile

/-!
# What a connection receives

The trace of a run decides what each connection has been sent: the broadcasts
that Run received after the connection's registration and before its removal,
less the one whose write failed.  `heard` reads them off the trace; in the
middle of a range loop the clients still to be visited are owed the message
being broadcast.
-/

namespace NexPulse.Query

open NexPulse.Foundation

variable {Conn Message : Type*} [DecidableEq Conn]

def registers (client : Conn) : Event Conn Message → Bool
  | .register other => other = client
  | _ => false

def writeFails (client : Conn) : Event Conn Message → Bool
  | .write other false => other = client
  | _ => false

def removes (client : Conn) : Event Conn Message → Bool
  | .unregister other => other = client
  | event => writeFails client event

def received : Event Conn Message → Option Message
  | .broadcast message => some message
  | _ => none

def sinceRegistered (client : Conn) (labels : List (Event Conn Message)) :
    List (Event Conn Message) :=
  (labels.dropWhile fun event => !registers client event).tail

def membership (client : Conn) (labels : List (Event Conn Message)) :
    List (Event Conn Message) :=
  (sinceRegistered client labels).takeWhile fun event => !removes client event

def heard (client : Conn) (labels : List (Event Conn Message)) : List Message :=
  let messages := (membership client labels).filterMap received
  if labels.any (writeFails client) then messages.dropLast else messages

def Hub.owed (hub : Hub Conn Message) (client : Conn) : List Message :=
  if client ∈ hub.remaining then hub.current.toList else []

/-! ## The trace and its last event -/

section Trace

variable {client : Conn} {labels : List (Event Conn Message)} {event : Event Conn Message}

def Listed (client : Conn) (labels : List (Event Conn Message)) : Prop :=
  labels.any (registers client) = true ∧
    ∀ event ∈ sinceRegistered client labels, removes client event = false

theorem sinceRegistered_concat (client : Conn) (labels : List (Event Conn Message))
    (event : Event Conn Message) :
    sinceRegistered client (labels ++ [event]) =
      if labels.any (registers client) then sinceRegistered client labels ++ [event] else [] := by
  induction labels with
  | nil => cases hregisters : registers client event <;> simp [sinceRegistered, hregisters]
  | cons first labels ih =>
      cases hregisters : registers client first with
      | true => simp [sinceRegistered, hregisters]
      | false => simpa [sinceRegistered, hregisters] using ih

theorem sinceRegistered_eq_nil (h : labels.any (registers client) = false) :
    sinceRegistered client labels = [] := by
  induction labels with
  | nil => rfl
  | cons first labels ih =>
      rw [List.any_cons, Bool.or_eq_false_iff] at h
      simpa [sinceRegistered, h.1] using ih h.2

theorem listed_concat :
    Listed client (labels ++ [event]) ↔
      (Listed client labels ∧ removes client event = false) ∨
        (labels.any (registers client) = false ∧ registers client event = true) := by
  rw [Listed, sinceRegistered_concat, List.any_append]
  cases hregistered : labels.any (registers client) with
  | true => simp [Listed, hregistered, or_imp, forall_and]
  | false => simp [Listed, hregistered]

theorem removes_not_received (h : removes client event = true) : received event = none := by
  cases event <;> simp_all [removes, writeFails, received]

instance : Decidable (Listed client labels) := inferInstanceAs (Decidable (_ ∧ _))

theorem messages_concat :
    (membership client (labels ++ [event])).filterMap received =
      (membership client labels).filterMap received ++
        if Listed client labels then (received event).toList else [] := by
  have hreceived : ([event].takeWhile fun event => !removes client event).filterMap received =
      (received event).toList := by
    cases hremoves : removes client event with
    | true => simp [hremoves, removes_not_received hremoves]
    | false => cases hmessage : received event <;> simp [hremoves, hmessage]
  rw [membership, membership, sinceRegistered_concat]
  cases hregistered : labels.any (registers client) with
  | false => simp [Listed, hregistered, sinceRegistered_eq_nil hregistered]
  | true =>
      rw [if_pos rfl]
      by_cases hkept : ∀ event ∈ sinceRegistered client labels, removes client event = false
      · have hall : ∀ event ∈ sinceRegistered client labels, (!removes client event) = true := by
          simpa using hkept
        rw [if_pos ⟨hregistered, hkept⟩, ← hreceived, ← List.filterMap_append,
          List.takeWhile_append_of_pos hall, List.takeWhile_eq_self_iff.mpr hall]
      · have hshort : ¬ Listed client labels := fun hlisted => hkept hlisted.2
        rw [if_neg hshort, List.append_nil, List.takeWhile_append, if_neg]
        intro hlength
        have hself := (List.takeWhile_sublist _).eq_of_length hlength
        exact hkept (by simpa using List.takeWhile_eq_self_iff.mp hself)

end Trace

/-! ## One step as one connection sees it -/

theorem event_eq_register {client : Conn} {event : Event Conn Message}
    (h : registers client event = true) : event = .register client := by
  cases event <;> simp_all [registers]

theorem event_eq_write {client : Conn} {event : Event Conn Message}
    (h : writeFails client event = true) : event = .write client false := by
  cases event with
  | write other succeeds => cases succeeds <;> simp_all [writeFails]
  | _ => contradiction

namespace Hub

variable {hub : Hub Conn Message} {client : Conn} {event : Event Conn Message}

theorem registered_next_iff (henabled : hub.Enabled event) :
    (hub.next event).Registered client ↔
      hub.Registered client ∨ registers client event = true := by
  cases event with
  | upgrade changed | readError changed =>
      by_cases hself : client = changed
      · subst hself
        simp [Registered, next, setStage, registers, show hub.stage client = _ from henabled]
      · simp [Registered, next, setStage, registers, hself]
  | register changed =>
      by_cases hself : client = changed
      · simp [Registered, next, setStage, registers, hself]
      · simp [Registered, next, setStage, registers, hself, Ne.symm hself]
  | unregister changed =>
      by_cases hself : client = changed
      · subst hself
        by_cases hmem : client ∈ hub.clients <;>
          simp [Registered, next, setStage, drop, registers, hmem, henabled.2]
      · by_cases hmem : changed ∈ hub.clients <;>
          simp [Registered, next, setStage, drop, registers, hmem, hself]
  | write changed succeeds => cases succeeds <;> simp [Registered, next, drop, registers]
  | broadcast | broadcasted => simp [Registered, next, registers]

theorem mem_next_iff :
    client ∈ (hub.next event).clients ↔
      (client ∈ hub.clients ∧ removes client event = false) ∨ registers client event = true := by
  cases event with
  | register changed => grind [next, setStage, removes, registers, writeFails]
  | unregister changed =>
      by_cases hmem : changed ∈ hub.clients <;>
        grind [next, setStage, drop, removes, registers, writeFails]
  | write changed succeeds =>
      cases succeeds <;> grind [next, drop, removes, registers, writeFails]
  | upgrade | readError | broadcast | broadcasted =>
      simp [next, setStage, removes, registers, writeFails]

theorem Registry.sent_owed_next (h : hub.Registry) (henabled : hub.Enabled event) :
    (hub.next event).sent client ++ (hub.next event).owed client =
      if writeFails client event then hub.sent client
      else hub.sent client ++ hub.owed client ++
        if client ∈ hub.clients then (received event).toList else [] := by
  cases event with
  | upgrade changed | readError changed | register changed =>
      change hub.sent client ++ hub.owed client = _
      simp [writeFails, received]
  | unregister changed =>
      by_cases hmem : changed ∈ hub.clients <;>
        simp [Hub.next, Hub.setStage, drop, owed, writeFails, received, hmem]
  | broadcast message =>
      change hub.sent client ++ (if client ∈ hub.clients then [message] else []) = _
      simp [owed, writeFails, received, h.idle henabled]
  | write changed succeeds =>
      by_cases hself : client = changed
      · subst hself
        cases succeeds <;> simp [Hub.next, drop, owed, writeFails, received, henabled.2]
      · cases succeeds <;>
          simp [Hub.next, drop, owed, writeFails, received, hself, Ne.symm hself]
  | broadcasted => simp [Hub.next, owed, writeFails, received, henabled.2]

end Hub

/-! ## Whole runs -/

section Run

variable {client : Conn} {labels : List (Event Conn Message)} {hub : Hub Conn Message}

structure Tracked (client : Conn) (labels : List (Event Conn Message))
    (hub : Hub Conn Message) : Prop where
  registry : hub.Registry
  registered : hub.Registered client ↔ labels.any (registers client) = true
  listed : client ∈ hub.clients ↔ Listed client labels
  failed : labels.any (writeFails client) = true → hub.Gone client
  heard : hub.sent client ++ hub.owed client = heard client labels

theorem Tracked.next {event : Event Conn Message} (h : Tracked client labels hub)
    (henabled : hub.Enabled event) : Tracked client (labels ++ [event]) (hub.next event) := by
  have hregistered : (hub.next event).Registered client ↔ _ := Hub.registered_next_iff henabled
  have hmem : client ∈ (hub.next event).clients ↔ _ := Hub.mem_next_iff
  constructor
  · exact h.registry.next henabled
  · rw [hregistered, h.registered]
    simp
  · rw [hmem, h.listed, listed_concat]
    refine or_congr_right ⟨fun hself => ⟨?_, hself⟩, fun hself => hself.2⟩
    obtain rfl := event_eq_register hself
    rw [← Bool.not_eq_true, ← h.registered]
    exact fun hold => hold.2 henabled.2
  · intro hfails
    rw [List.any_append, Bool.or_eq_true] at hfails
    rcases hfails with hold | hnow
    · exact (h.failed hold).next henabled
    · obtain rfl := event_eq_write (by simpa using hnow)
      have hlisted := (h.registry.placed client).listed (h.registry.remaining henabled.2)
      exact ⟨(Hub.stage_next henabled).1 hlisted.1, by simp [Hub.next, Hub.drop]⟩
  · have hheard := h.heard
    have hfailed := h.failed
    rw [h.registry.sent_owed_next henabled]
    simp only [NexPulse.Query.heard, messages_concat, List.any_append, ← h.listed] at hheard ⊢
    cases hfails : writeFails client event with
    | true =>
        obtain rfl := event_eq_write hfails
        have howed : hub.owed client = hub.current.toList := if_pos henabled.2
        obtain ⟨message, hmessage⟩ := Option.ne_none_iff_exists'.mp henabled.1
        have hlisted := h.registry.remaining henabled.2
        have hbefore : labels.any (writeFails client) = false :=
          Bool.eq_false_iff.mpr fun hold => (hfailed hold).2 hlisted
        rw [howed, hmessage, hbefore] at hheard
        have hlast := congrArg List.dropLast hheard
        simpa [hfails, received] using hlast
    | false =>
        by_cases hlisted : client ∈ hub.clients
        · have hbefore : labels.any (writeFails client) = false :=
            Bool.eq_false_iff.mpr fun hold => (hfailed hold).2 hlisted
          simp only [hbefore] at hheard
          simp [hbefore, hfails, hlisted, hheard]
        · simp [hfails, hlisted, hheard]

theorem tracked_of_run (client : Conn) (hrun : hubSystem.run Hub.newHub labels = some hub) :
    Tracked client labels hub := by
  refine hubSystem.run_induction (P := Tracked client) ?_ ?_ hrun
  · constructor
    · exact Hub.newHub_registry
    · simp [Hub.Registered, Hub.newHub]
    · simp [Listed, Hub.newHub]
    · simp
    · simp [Hub.owed, Hub.newHub, heard, membership, sinceRegistered]
  · intro labels state event next _ htracked hstep
    obtain ⟨henabled, rfl⟩ := System.guarded_step_eq_some.mp hstep
    exact htracked.next henabled

/-- The events that decide what a connection hears: broadcasts and its own coming and going. -/
def concerns (client : Conn) (event : Event Conn Message) : Bool :=
  registers client event || removes client event || (received event).isSome

theorem writeFails_imp_concerns {event : Event Conn Message} (h : writeFails client event = true) :
    concerns client event = true := by
  obtain rfl := event_eq_write h
  simp [concerns, removes, writeFails]

theorem sinceRegistered_filter (client : Conn) (labels : List (Event Conn Message)) :
    sinceRegistered client (labels.filter (concerns client)) =
      (sinceRegistered client labels).filter (concerns client) := by
  induction labels with
  | nil => rfl
  | cons event labels ih =>
      cases hregisters : registers client event with
      | true => simp [sinceRegistered, concerns, hregisters]
      | false =>
          cases hconcerns : concerns client event <;>
            simpa [sinceRegistered, hregisters, hconcerns] using ih

theorem received_of_not_concerns {event : Event Conn Message}
    (h : concerns client event = false) : received event = none := by
  simp only [concerns, Bool.or_eq_false_iff] at h
  simpa using h.2

theorem messages_filter (client : Conn) (events : List (Event Conn Message)) :
    ((events.filter (concerns client)).takeWhile fun event => !removes client event).filterMap
        received =
      (events.takeWhile fun event => !removes client event).filterMap received := by
  induction events with
  | nil => rfl
  | cons event events ih =>
      cases hremoves : removes client event with
      | true => simp [concerns, hremoves]
      | false =>
          cases hconcerns : concerns client event with
          | true => cases hmessage : received event <;> simp [hremoves, hconcerns, hmessage, ih]
          | false => simp [hremoves, hconcerns, received_of_not_concerns hconcerns, ih]

theorem any_writeFails_filter (client : Conn) (labels : List (Event Conn Message)) :
    (labels.filter (concerns client)).any (writeFails client) =
      labels.any (writeFails client) := by
  rw [List.any_filter]
  congr 1
  funext event
  cases hfails : writeFails client event with
  | true => simp [writeFails_imp_concerns hfails]
  | false => simp

theorem heard_filter_concerns (client : Conn) (labels : List (Event Conn Message)) :
    heard client (labels.filter (concerns client)) = heard client labels := by
  simp only [heard, membership, sinceRegistered_filter, messages_filter, any_writeFails_filter]

theorem owed_of_atSelect (hrun : hubSystem.run Hub.newHub labels = some hub)
    (hselect : hub.AtSelect) : hub.owed client = [] := by
  simp [Hub.owed, (registry_of_run hrun).idle hselect]

/--
In every run a connection has been sent the broadcasts received between its
registration and its removal, in order and once each, up to the message that a
range loop still owes it; and two runs that agree on the broadcasts and on the
coming and going of the connection send it the same messages, whatever the
other connections do.
-/
theorem sent_eq_heard (client : Conn) (hrun : hubSystem.run Hub.newHub labels = some hub) :
    hub.sent client ++ hub.owed client = heard client labels ∧
      (hub.AtSelect → hub.sent client = heard client labels) ∧
      ∀ others other, hubSystem.run Hub.newHub others = some other →
        others.filter (concerns client) = labels.filter (concerns client) →
        other.sent client ++ other.owed client = hub.sent client ++ hub.owed client := by
  have hheard := (tracked_of_run client hrun).heard
  refine ⟨hheard, fun hselect => ?_, fun others other hother hconcerns => ?_⟩
  · rw [← hheard, owed_of_atSelect hrun hselect, List.append_nil]
  · rw [hheard, (tracked_of_run client hother).heard, ← heard_filter_concerns client others,
      hconcerns, heard_filter_concerns]

def secondClientFails : List (Event Bool String) :=
  [.upgrade true, .upgrade false, .register true, .register false,
    .broadcast "online", .write false false, .write true true, .broadcasted,
    .broadcast "offline", .write true true, .broadcasted]

def oneClient : List (Event Bool String) :=
  [.upgrade true, .register true,
    .broadcast "online", .write true true, .broadcasted,
    .broadcast "offline", .write true true, .broadcasted]

theorem sent_eq_heard_second_client_fails :
    ∃ hub other, hubSystem.run Hub.newHub secondClientFails = some hub ∧
      hubSystem.run Hub.newHub oneClient = some other ∧
      hub.sent true = ["online", "offline"] ∧
      other.sent true ++ other.owed true = hub.sent true ++ hub.owed true := by
  have hrun : hubSystem.run Hub.newHub secondClientFails = some _ := rfl
  have hother : hubSystem.run Hub.newHub oneClient = some _ := rfl
  obtain ⟨-, hselect, hisolated⟩ := sent_eq_heard true hrun
  exact ⟨_, _, hrun, hother, hselect rfl, hisolated _ _ hother (by decide)⟩

end Run

end NexPulse.Query
