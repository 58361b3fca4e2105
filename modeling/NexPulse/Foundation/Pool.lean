import Mathlib.Algebra.BigOperators.Group.Finset.Piecewise
import Mathlib.Data.Fintype.Basic
import Mathlib.Data.List.Basic
import Mathlib.Data.List.Perm.Basic

/-!
# Pools of workers

A pool is a list of workers whose states change one at a time: a step replaces
the state at one index.  What such a step does to a count over the pool, and to
the values that the workers hold, depends on that one worker only.  A pool
may also be indexed by the parts into which a list is divided.
-/

namespace NexPulse.Foundation.Pool

variable {Worker Held : Type*} {workers : List Worker} {id : Nat} {before after : Worker}

theorem eq_take_append_cons_drop (h : workers[id]? = some before) :
    workers = workers.take id ++ before :: workers.drop (id + 1) := by
  obtain ⟨hlt, rfl⟩ := List.getElem?_eq_some_iff.mp h
  rw [← List.drop_eq_getElem_cons hlt, List.take_append_drop]

theorem set_eq_take_append_cons_drop (after : Worker) (h : workers[id]? = some before) :
    workers.set id after = workers.take id ++ after :: workers.drop (id + 1) := by
  obtain ⟨hlt, rfl⟩ := List.getElem?_eq_some_iff.mp h
  rw [List.set_eq_take_append_cons_drop, if_pos hlt]

theorem countP_set_add (p : Worker → Bool) (after : Worker) (h : workers[id]? = some before) :
    (workers.set id after).countP p + (p before).toNat = workers.countP p + (p after).toNat := by
  conv_rhs => rw [eq_take_append_cons_drop h]
  rw [set_eq_take_append_cons_drop _ h]
  simp only [List.countP_append, List.countP_cons]
  cases p before <;> cases p after <;> simp <;> omega

theorem filterMap_set_of_eq {f : Worker → Option Held} (h : workers[id]? = some before)
    (hsame : f after = f before) : (workers.set id after).filterMap f = workers.filterMap f := by
  conv_rhs => rw [eq_take_append_cons_drop h]
  rw [set_eq_take_append_cons_drop _ h]
  simp [List.filterMap_cons, hsame]

theorem filterMap_set_perm {f : Worker → Option Held} {value : Held}
    (h : workers[id]? = some before) (hbefore : f before = none) (hafter : f after = some value) :
    ((workers.set id after).filterMap f).Perm (workers.filterMap f ++ [value]) := by
  conv_rhs => rw [eq_take_append_cons_drop h]
  rw [set_eq_take_append_cons_drop _ h]
  simp only [List.filterMap_append, List.filterMap_cons, hbefore, hafter, List.append_assoc]
  exact (List.perm_append_singleton _ _).symm.append_left _

/-! ## Pools indexed by parts -/

section Parts

variable {Part Item : Type*} [Fintype Part] [DecidableEq Part]

theorem sum_update_add (measure : Part → Worker → Nat) (pool : Part → Worker) (part : Part)
    (after : Worker) :
    ∑ other, measure other (Function.update pool part after other) + measure part (pool part) =
      ∑ other, measure other (pool other) + measure part after := by
  have hrest : ∑ other ∈ Finset.univ.erase part,
      measure other (Function.update pool part after other) =
        ∑ other ∈ Finset.univ.erase part, measure other (pool other) := by
    refine Finset.sum_congr rfl fun other hother => ?_
    rw [Function.update_of_ne (Finset.ne_of_mem_erase hother)]
  rw [← Finset.add_sum_erase _ _ (Finset.mem_univ part), hrest, Function.update_self,
    ← Finset.add_sum_erase _ (fun other => measure other (pool other)) (Finset.mem_univ part)]
  omega

theorem sum_countP_filter (p : Item → Bool) (assign : Item → Part) (items : List Item) :
    ∑ part, (items.filter fun item => assign item = part).countP p = items.countP p := by
  induction items with
  | nil => simp
  | cons item items ih =>
      have hfirst (part : Part) :
          ((item :: items).filter fun item => assign item = part).countP p =
            (if assign item = part then (p item).toNat else 0) +
              (items.filter fun item => assign item = part).countP p := by
        by_cases hpart : assign item = part
        · cases hp : p item <;> simp [hpart, hp, add_comm]
        · simp [hpart]
      simp only [hfirst, Finset.sum_add_distrib, ih, Finset.sum_ite_eq, Finset.mem_univ, if_true,
        List.countP_cons]
      cases p item <;> simp [add_comm]

end Parts

end NexPulse.Foundation.Pool
