import Mathlib.Data.List.Basic
import Mathlib.Data.Int.Order.Basic

/-!
# Lists under Python's indices

An index below zero counts from the end, so -1 is the last item, and a slice
takes bounds outside the list as its ends.  A search that finds nothing leaves
the index at -1.
-/

namespace NexPulse.Foundation.Slices

variable {Item : Type*}

/-- The place in a list of `length` items that a bound of a slice stands for. -/
def place (length : Nat) (index : Int) : Nat :=
  if index < 0 then (length + index).toNat else min index.toNat length

/-- `items[:stop]` -/
def before (items : List Item) (stop : Int) : List Item := items.take (place items.length stop)

/-- `items[start:]` -/
def since (items : List Item) (start : Int) : List Item := items.drop (place items.length start)

/-- `items[start:stop]` -/
def between (items : List Item) (start stop : Int) : List Item :=
  (items.take (place items.length stop)).drop (place items.length start)

/-- `del items[start:stop]` -/
def delete (items : List Item) (start stop : Int) : List Item :=
  items.take (place items.length start) ++
    items.drop (max (place items.length start) (place items.length stop))

/-- `items[index]`, where an index outside the list raises an error. -/
def item? (items : List Item) (index : Int) : Option Item :=
  if index < 0 then
    if items.length + index < 0 then none else items[(items.length + index).toNat]?
  else items[index.toNat]?

/-- `range(start, stop)` -/
def range (start stop : Int) : List Int :=
  (List.range (stop - start).toNat).map fun step : Nat => start + step

def findAt (p : Item → Bool) : Nat → List Item → Int
  | _, [] => -1
  | index, item :: items => if p item then index else findAt p (index + 1) items

/-- The loop that breaks at the first item with a property, for an index that starts at -1. -/
def find (p : Item → Bool) (items : List Item) : Int := findAt p 0 items

section Slices

variable {items front tail : List Item} {p : Item → Bool}

theorem place_natCast (length index : Nat) : place length index = min index length := by
  rw [place, if_neg (by omega), Int.toNat_natCast]

theorem place_neg_one (length : Nat) : place length (-1) = length - 1 := by
  rw [place, if_pos (by decide)]
  omega

theorem before_neg_one (items : List Item) : before items (-1) = items.dropLast := by
  rw [before, place_neg_one, List.dropLast_eq_take]

section Cut

variable {start stop : Nat}

theorem before_natCast (h : stop ≤ items.length) : before items stop = items.take stop := by
  rw [before, place_natCast, Nat.min_eq_left h]

theorem since_natCast (h : start ≤ items.length) : since items start = items.drop start := by
  rw [since, place_natCast, Nat.min_eq_left h]

theorem between_natCast (hle : start ≤ stop) (h : stop ≤ items.length) :
    between items start stop = (items.take stop).drop start := by
  rw [between, place_natCast, place_natCast, Nat.min_eq_left h,
    Nat.min_eq_left (Nat.le_trans hle h)]

theorem delete_natCast (hle : start ≤ stop) (h : stop ≤ items.length) :
    delete items start stop = items.take start ++ items.drop stop := by
  rw [delete, place_natCast, place_natCast, Nat.min_eq_left h, Nat.min_eq_left (Nat.le_trans hle h),
    Nat.max_eq_right hle]

theorem before_length (front tail : List Item) : before (front ++ tail) front.length = front := by
  rw [before_natCast (List.prefix_append _ _).length_le, List.take_left]

theorem since_length (front tail : List Item) : since (front ++ tail) front.length = tail := by
  rw [since_natCast (List.prefix_append _ _).length_le, List.drop_left]

theorem delete_between (front block tail : List Item) :
    delete (front ++ block ++ tail) front.length (front ++ block).length = front ++ tail := by
  rw [delete_natCast (List.prefix_append _ _).length_le (List.prefix_append _ _).length_le,
    List.drop_left, List.append_assoc, List.take_left]

end Cut

theorem range_cons {start stop : Int} (h : start < stop) :
    range start stop = start :: range (start + 1) stop := by
  obtain ⟨more, hmore⟩ : ∃ more, (stop - start).toNat = more + 1 :=
    ⟨(stop - start).toNat - 1, by omega⟩
  have hrest : (stop - (start + 1)).toNat = more := by omega
  rw [range, range, hmore, hrest, List.range_succ_eq_map, List.map_cons, List.map_map]
  refine congrArg₂ _ (Int.add_zero start) (List.map_congr_left fun step _ => ?_)
  simp only [Function.comp_apply]
  omega

theorem range_eq_nil {start stop : Int} (h : stop ≤ start) : range start stop = [] := by
  have hzero : (stop - start).toNat = 0 := by omega
  rw [range, hzero]
  rfl

theorem item?_length (front : List Item) (item : Item) (tail : List Item) :
    item? (front ++ item :: tail) front.length = some item := by
  rw [item?, if_neg (by omega), Int.toNat_natCast, List.getElem?_append_right (Nat.le_refl _),
    Nat.sub_self, List.getElem?_cons_zero]

theorem item?_neg_one (front : List Item) (last : Item) :
    item? (front ++ [last]) (-1) = some last := by
  have hlast : ((front ++ [last]).length : Int) + -1 = front.length := by
    rw [List.length_append, List.length_singleton]
    omega
  rw [item?, if_pos (by decide), hlast, if_neg (by omega), Int.toNat_natCast,
    List.getElem?_append_right (Nat.le_refl _), Nat.sub_self, List.getElem?_cons_zero]

theorem findAt_cases (p : Item → Bool) (items : List Item) (index : Nat) :
    (∃ front item tail, items = front ++ item :: tail ∧ (∀ other ∈ front, ¬ p other) ∧ p item ∧
      findAt p index items = (index + front.length : Nat)) ∨
      (∀ item ∈ items, ¬ p item) ∧ findAt p index items = -1 := by
  induction items generalizing index with
  | nil => exact .inr ⟨by simp, rfl⟩
  | cons first items ih =>
      by_cases hfirst : p first
      · exact .inl ⟨[], first, items, rfl, by simp, hfirst, by simp [findAt, hfirst]⟩
      · rw [findAt, if_neg hfirst]
        rcases ih (index + 1) with ⟨front, item, tail, rfl, hfront, hitem, hfound⟩ | ⟨hnone, hfound⟩
        · refine .inl ⟨first :: front, item, tail, rfl, ?_, hitem, ?_⟩
          · exact List.forall_mem_cons.mpr ⟨hfirst, hfront⟩
          · rw [hfound, List.length_cons]
            omega
        · exact .inr ⟨List.forall_mem_cons.mpr ⟨hfirst, hnone⟩, hfound⟩

theorem find_cases (p : Item → Bool) (items : List Item) :
    (∃ front item tail, items = front ++ item :: tail ∧ (∀ other ∈ front, ¬ p other) ∧ p item ∧
      find p items = front.length) ∨
      (∀ item ∈ items, ¬ p item) ∧ find p items = -1 := by
  have h := findAt_cases p items 0
  simp only [Nat.zero_add] at h
  exact h

theorem find_of_none (hnone : ∀ item ∈ items, ¬ p item) : find p items = -1 := by
  rcases find_cases p items with ⟨front, item, tail, rfl, -, hitem, -⟩ | ⟨-, hfound⟩
  · exact absurd hitem (hnone item (by simp))
  · exact hfound

theorem find_lt (h : find p items ≠ -1) : ∃ index : Nat, find p items = index ∧
    index < items.length := by
  rcases find_cases p items with ⟨front, item, tail, rfl, -, -, hfound⟩ | ⟨-, hnone⟩
  · exact ⟨front.length, hfound, by simp⟩
  · exact absurd hnone h

theorem findAt_of_first {item : Item} (hfront : ∀ other ∈ front, ¬ p other) (hitem : p item)
    (index : Nat) : findAt p index (front ++ item :: tail) = (index + front.length : Nat) := by
  induction front generalizing index with
  | nil => simp [findAt, hitem]
  | cons first front ih =>
      obtain ⟨hfirst, hrest⟩ := List.forall_mem_cons.mp hfront
      rw [List.cons_append, findAt, if_neg hfirst, ih hrest, List.length_cons]
      omega

theorem find_of_first {item : Item} (hfront : ∀ other ∈ front, ¬ p other) (hitem : p item) :
    find p (front ++ item :: tail) = front.length := by
  rw [find, findAt_of_first hfront hitem, Nat.zero_add]

section Subset

variable (items : List Item) (start stop : Int)

theorem before_subset : before items stop ⊆ items := List.take_subset _ _

theorem since_subset : since items start ⊆ items := List.drop_subset _ _

theorem between_subset : between items start stop ⊆ items :=
  fun _ hitem => List.take_subset _ _ (List.drop_subset _ _ hitem)

theorem delete_subset : delete items start stop ⊆ items :=
  List.append_subset.mpr ⟨List.take_subset _ _, List.drop_subset _ _⟩

end Subset

/-! ## Slices of changed items -/

section Map

variable {Other : Type*} (f : Item → Other) (items : List Item) (start stop : Int)

theorem before_map : before (items.map f) stop = (before items stop).map f := by
  rw [before, before, List.length_map, List.map_take]

theorem since_map : since (items.map f) start = (since items start).map f := by
  rw [since, since, List.length_map, List.map_drop]

theorem between_map : between (items.map f) start stop = (between items start stop).map f := by
  rw [between, between, List.length_map, List.map_drop, List.map_take]

theorem delete_map : delete (items.map f) start stop = (delete items start stop).map f := by
  rw [delete, delete, List.length_map, List.map_append, List.map_drop, List.map_take]

theorem item?_map (index : Int) : item? (items.map f) index = (item? items index).map f := by
  rw [item?, item?, List.length_map]
  split
  · split
    · rfl
    · rw [List.getElem?_map]
  · rw [List.getElem?_map]

theorem mem_of_item? {index : Int} {item : Item} (h : item? items index = some item) :
    item ∈ items := by
  rw [item?] at h
  split at h
  · split at h
    · contradiction
    · exact List.mem_of_getElem? h
  · exact List.mem_of_getElem? h

theorem find_map {p : Other → Bool} {q : Item → Bool} (h : ∀ item ∈ items, p (f item) = q item) :
    find p (items.map f) = find q items := by
  have hfrom (index : Nat) : findAt p index (items.map f) = findAt q index items := by
    induction items generalizing index with
    | nil => rfl
    | cons item items ih =>
        obtain ⟨hitem, hitems⟩ := List.forall_mem_cons.mp h
        rw [List.map_cons, findAt, findAt, hitem, ih hitems]
  exact hfrom 0

end Map

end Slices

end NexPulse.Foundation.Slices
