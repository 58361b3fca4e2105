import Mathlib.Data.List.Induction

/-!
# Labelled transition systems with runs

A system is a partial step function: in a state, a label either names one next
state or is not enabled.  All nondeterminism (schedules, failures, answers of
the environment) is carried by the labels, so a run is a list of labels.  The
rules below are the inductions over runs that the models need: an invariant
kept by every step, an invariant that also sees the labels taken so far, an
invariant kept by the steps that meet a side condition, a side condition that
is exact for a property of all states of a run, two runs side by side of which
the second takes only some of the labels, a goal to which some steps come nearer
and nearer, and what the steps of a run yield, gathered in order, which may be
the run of a part.
-/

namespace NexPulse.Foundation

structure System (State Label : Type*) where
  step : State → Label → Option State

namespace System

variable {State Label : Type*} (S : System State Label)

def run : State → List Label → Option State
  | state, [] => some state
  | state, label :: labels => (S.step state label).bind fun next => run next labels

@[simp] theorem run_nil (state : State) : S.run state [] = some state := rfl

theorem run_cons_eq_some {state final : State} {label : Label} {labels : List Label} :
    S.run state (label :: labels) = some final ↔
      ∃ next, S.step state label = some next ∧ S.run next labels = some final := by
  simp [run, Option.bind_eq_some_iff]

theorem run_append (state : State) (first second : List Label) :
    S.run state (first ++ second) =
      (S.run state first).bind fun next => S.run next second := by
  induction first generalizing state with
  | nil => rfl
  | cons label labels ih =>
      simp only [List.cons_append, run]
      cases S.step state label with
      | none => rfl
      | some next => exact ih next

theorem run_concat_eq_some {state final : State} {labels : List Label} {label : Label} :
    S.run state (labels ++ [label]) = some final ↔
      ∃ previous, S.run state labels = some previous ∧
        S.step previous label = some final := by
  rw [run_append]
  simp [run, Option.bind_eq_some_iff]

/--
Induction over a run from its start: a property of the labels taken so far and
the state they lead to holds at the end if it holds at the start and is kept
by every further step.
-/
theorem run_induction {start : State} {P : List Label → State → Prop}
    (init : P [] start)
    (step : ∀ labels state label next, S.run start labels = some state →
      P labels state → S.step state label = some next → P (labels ++ [label]) next)
    {labels : List Label} {final : State} (h : S.run start labels = some final) :
    P labels final := by
  induction labels using List.reverseRecOn generalizing final with
  | nil =>
      obtain rfl : start = final := by simpa using h
      exact init
  | append_singleton labels label ih =>
      obtain ⟨previous, hprevious, hstep⟩ := S.run_concat_eq_some.mp h
      exact step labels previous label final hprevious (ih hprevious) hstep

theorem run_invariant {start : State} {I : State → Prop} (init : I start)
    (step : ∀ state label next, I state → S.step state label = some next → I next)
    {labels : List Label} {final : State} (h : S.run start labels = some final) :
    I final :=
  S.run_induction (P := fun _ => I) init
    (fun _ state label next _ hinv hstep => step state label next hinv hstep) h

/-- Every step of the run from `state` along `labels` meets `ok`. -/
def Along (ok : State → Label → Prop) : State → List Label → Prop
  | _, [] => True
  | state, label :: labels =>
      ok state label ∧ ∀ next, S.step state label = some next → Along ok next labels

instance decidableAlong (ok : State → Label → Prop) [∀ state label, Decidable (ok state label)] :
    ∀ (labels : List Label) (state : State), Decidable (S.Along ok state labels)
  | [], _ => isTrue trivial
  | label :: labels, state =>
      have : ∀ next, Decidable (S.Along ok next labels) := decidableAlong ok labels
      decidable_of_iff
        (ok state label ∧ ∀ next ∈ S.step state label, S.Along ok next labels) Iff.rfl

theorem Along.and {first second : State → Label → Prop} {state : State} {labels : List Label}
    (hfirst : S.Along first state labels) (hsecond : S.Along second state labels) :
    S.Along (fun state label => first state label ∧ second state label) state labels := by
  induction labels generalizing state with
  | nil => trivial
  | cons label labels ih =>
      refine ⟨⟨hfirst.1, hsecond.1⟩, fun next hstep => ?_⟩
      exact ih (hfirst.2 next hstep) (hsecond.2 next hstep)

theorem along_of_forall_mem {ok : State → Label → Prop} {labels : List Label}
    (h : ∀ label ∈ labels, ∀ state, ok state label) (state : State) :
    S.Along ok state labels := by
  induction labels generalizing state with
  | nil => trivial
  | cons label labels ih =>
      obtain ⟨hfirst, hrest⟩ := List.forall_mem_cons.mp h
      exact ⟨hfirst state, fun next _ => ih hrest next⟩

theorem along_concat {ok : State → Label → Prop} {start state : State}
    {labels : List Label} {label : Label}
    (hrun : S.run start labels = some state) :
    S.Along ok start (labels ++ [label]) ↔ S.Along ok start labels ∧ ok state label := by
  induction labels generalizing start with
  | nil =>
      obtain rfl : start = state := by simpa using hrun
      simp [Along]
  | cons first labels ih =>
      obtain ⟨next, hstep, hrest⟩ := S.run_cons_eq_some.mp hrun
      simp only [List.cons_append, Along, hstep, Option.some.injEq, forall_eq']
      rw [ih hrest, and_assoc]

theorem run_invariant_along {ok : State → Label → Prop} {start : State}
    {I : State → Prop} (init : I start)
    (step : ∀ state label next, ok state label → I state →
      S.step state label = some next → I next)
    {labels : List Label} {final : State} (h : S.run start labels = some final)
    (hok : S.Along ok start labels) : I final := by
  refine S.run_induction (P := fun labels state => S.Along ok start labels → I state)
    (fun _ => init) ?_ h hok
  intro labels state label next hrun ih hstep halong
  obtain ⟨hbefore, hlast⟩ := (S.along_concat hrun).mp halong
  exact step state label next hlast (ih hbefore) hstep

/--
Where `ok` says of each step whether it keeps a property, a run meets `ok` step
by step exactly when every state on its way has the property.
-/
theorem along_iff_forall_prefix {ok : State → Label → Prop} {I P : State → Prop} {start : State}
    (init : I start ∧ P start)
    (step : ∀ state label next, I state → S.step state label = some next →
      I next ∧ (P state → (ok state label ↔ P next)))
    {labels : List Label} {final : State} (h : S.run start labels = some final) :
    S.Along ok start labels ↔
      ∀ before state, before <+: labels → S.run start before = some state → P state := by
  have hboth := S.run_induction
    (P := fun labels final => I final ∧ (S.Along ok start labels ↔
      ∀ before state, before <+: labels → S.run start before = some state → P state))
    ?_ ?_ h
  · exact hboth.2
  · refine ⟨init.1, fun _ before state hinitial hrun => ?_, fun _ => trivial⟩
    obtain rfl := List.prefix_nil.mp hinitial
    obtain rfl : start = state := by simpa using hrun
    exact init.2
  · intro labels state label next hrun ⟨hinv, ih⟩ hstep
    obtain ⟨hnext, hkeeps⟩ := step state label next hinv hstep
    refine ⟨hnext, ?_⟩
    rw [S.along_concat hrun, ih]
    constructor
    · rintro ⟨hbefore, hok⟩ before other hinitial hother
      rcases List.prefix_concat_iff.mp hinitial with rfl | hearlier
      · rw [S.run_concat_eq_some.mpr ⟨state, hrun, hstep⟩] at hother
        obtain rfl := Option.some.inj hother
        exact (hkeeps (hbefore labels state (List.prefix_refl _) hrun)).mp hok
      · exact hbefore before other hearlier hother
    · intro hall
      have hbefore : ∀ before other, before <+: labels → S.run start before = some other →
          P other :=
        fun before other hinitial => hall before other (hinitial.trans (List.prefix_append _ _))
      refine ⟨hbefore, (hkeeps (hbefore labels state (List.prefix_refl _) hrun)).mpr ?_⟩
      exact hall _ next (List.prefix_refl _) (S.run_concat_eq_some.mpr ⟨state, hrun, hstep⟩)

/--
Two runs side by side, the second with only the labels that `keep` selects: a
relation between their states that kept steps preserve together, and the other
steps preserve alone, relates the two ends.
-/
theorem run_filter {keep : Label → Bool} {R : State → State → Prop}
    (kept : ∀ full part label next, R full part → keep label → S.step full label = some next →
      ∃ other, S.step part label = some other ∧ R next other)
    (dropped : ∀ full part label next, R full part → ¬ keep label → S.step full label = some next →
      R next part)
    {full part final : State} {labels : List Label} (h : R full part)
    (hrun : S.run full labels = some final) :
    ∃ other, S.run part (labels.filter keep) = some other ∧ R final other := by
  induction labels generalizing full part with
  | nil =>
      obtain rfl : full = final := by simpa using hrun
      exact ⟨part, rfl, h⟩
  | cons label labels ih =>
      obtain ⟨next, hstep, hrest⟩ := S.run_cons_eq_some.mp hrun
      by_cases hkeep : keep label
      · obtain ⟨other, hother, hrelated⟩ := kept full part label next h hkeep hstep
        obtain ⟨last, hlast, hend⟩ := ih hrelated hrest
        rw [List.filter_cons_of_pos hkeep]
        exact ⟨last, S.run_cons_eq_some.mpr ⟨other, hother, hlast⟩, hend⟩
      · rw [List.filter_cons_of_neg hkeep]
        exact ih (dropped full part label next h hkeep hstep) hrest

/-- A goal is reached by steps of a kind if in every state short of it one of them lowers a rank. -/
theorem run_to_goal {I goal : State → Prop} {kind : Label → Prop} {rank : State → Nat}
    (progress : ∀ state, I state → ¬ goal state → ∃ label next, kind label ∧
      S.step state label = some next ∧ I next ∧ rank next < rank state)
    {state : State} (h : I state) :
    ∃ labels final, (∀ label ∈ labels, kind label) ∧ labels.length ≤ rank state ∧
      S.run state labels = some final ∧ I final ∧ goal final := by
  induction hrank : rank state using Nat.strongRecOn generalizing state with
  | ind bound ih =>
      subst hrank
      by_cases hgoal : goal state
      · exact ⟨[], state, by simp, Nat.zero_le _, rfl, h, hgoal⟩
      · obtain ⟨label, next, hkind, hstep, hnext, hlower⟩ := progress state h hgoal
        obtain ⟨labels, final, hkinds, hlength, hrun, hend⟩ := ih _ hlower hnext rfl
        exact ⟨label :: labels, final, List.forall_mem_cons.mpr ⟨hkind, hkinds⟩,
          Nat.succ_le_of_lt (Nat.lt_of_le_of_lt hlength hlower),
          S.run_cons_eq_some.mpr ⟨next, hstep, hrun⟩, hend⟩

/-- What the steps of the run from `state` along `labels` yield, in order. -/
def gather {Item : Type*} (yields : State → Label → List Item) : State → List Label → List Item
  | _, [] => []
  | state, label :: labels =>
      yields state label ++
        match S.step state label with
        | some next => gather yields next labels
        | none => []

section Gather

variable {Item : Type*} {yields : State → Label → List Item} {start state final : State}
  {labels : List Label}

@[simp] theorem gather_nil (state : State) : S.gather yields state [] = [] := rfl

theorem gather_concat (label : Label) (hrun : S.run start labels = some state) :
    S.gather yields start (labels ++ [label]) =
      S.gather yields start labels ++ yields state label := by
  induction labels generalizing start with
  | nil =>
      obtain rfl : start = state := by simpa using hrun
      cases hstep : S.step start label <;> simp [gather, hstep]
  | cons first labels ih =>
      obtain ⟨next, hstep, hrest⟩ := S.run_cons_eq_some.mp hrun
      simp only [List.cons_append, gather, hstep, ih hrest, List.append_assoc]

end Gather

def guarded (Enabled : State → Label → Prop) [∀ state label, Decidable (Enabled state label)]
    (next : State → Label → State) : System State Label where
  step state label := if Enabled state label then some (next state label) else none

theorem guarded_step_eq_some {Enabled : State → Label → Prop}
    [∀ state label, Decidable (Enabled state label)] {next : State → Label → State}
    {state final : State} {label : Label} :
    (guarded Enabled next).step state label = some final ↔
      Enabled state label ∧ next state label = final := by
  simp [guarded]

end System

end NexPulse.Foundation
