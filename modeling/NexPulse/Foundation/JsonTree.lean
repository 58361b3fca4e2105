import Mathlib.Data.List.Forall2
import Mathlib.Data.List.Nodup
import NexPulse.Foundation.Numeral

/-!
# JSON values as trees

The tree of a JSON text keeps the fields of objects in their order and numbers as
rationals.  Two trees agree when they are the same value: the order of fields does
not count.
-/

namespace NexPulse.Foundation.JsonText

inductive Tree where
  | null
  | bool (value : Bool)
  | number (value : Rat)
  | string (content : List Rune)
  | array (items : List Tree)
  | object (fields : List (List Rune × Tree))

namespace Tree

mutual

def mapNumbers (f : Rat → Rat) : Tree → Tree
  | .null => .null
  | .bool value => .bool value
  | .number x => .number (f x)
  | .string content => .string content
  | .array items => .array (mapItems f items)
  | .object fields => .object (mapFields f fields)

def mapItems (f : Rat → Rat) : List Tree → List Tree
  | [] => []
  | item :: items => item.mapNumbers f :: mapItems f items

def mapFields (f : Rat → Rat) : List (List Rune × Tree) → List (List Rune × Tree)
  | [] => []
  | (key, tree) :: fields => (key, tree.mapNumbers f) :: mapFields f fields

end

inductive Every (p : Tree → Prop) : Tree → Prop
  | node (tree : Tree) (here : p tree)
      (items : ∀ items, tree = .array items → ∀ item ∈ items, Every p item)
      (fields : ∀ fields, tree = .object fields → ∀ field ∈ fields, Every p field.2) : Every p tree

def Within : Nat → Tree → Prop
  | 0, .array _ | 0, .object _ => False
  | depth + 1, .array items => ∀ item ∈ items, Within depth item
  | depth + 1, .object fields => ∀ field ∈ fields, Within depth field.2
  | _, _ => True

def WellFormed : Tree → Prop :=
  Every fun tree => (∀ content, tree = .string content → none ∉ content) ∧
    ∀ fields, tree = .object fields →
      (fields.map Prod.fst).Nodup ∧ ∀ field ∈ fields, none ∉ field.1

def Numbers (p : Rat → Prop) : Tree → Prop := Every fun tree => ∀ x, tree = .number x → p x

/-- The same value: the fields of an object may come in another order. -/
inductive Agrees : Tree → Tree → Prop
  | null : Agrees .null .null
  | bool (value : Bool) : Agrees (.bool value) (.bool value)
  | number (x : Rat) : Agrees (.number x) (.number x)
  | string (content : List Rune) : Agrees (.string content) (.string content)
  | array (items others : List Tree) (length : items.length = others.length)
      (agree : ∀ pair ∈ items.zip others, Agrees pair.1 pair.2) :
      Agrees (.array items) (.array others)
  | object (fields others : List (List Rune × Tree)) (length : fields.length = others.length)
      (keys : ∀ key, key ∈ fields.map Prod.fst ↔ key ∈ others.map Prod.fst)
      (agree : ∀ key tree other, (key, tree) ∈ fields → (key, other) ∈ others →
        Agrees tree other) :
      Agrees (.object fields) (.object others)

section Trees

variable {p : Tree → Prop} {tree : Tree} {items : List Tree} {fields : List (List Rune × Tree)}

@[elab_as_elim]
theorem induction {motive : Tree → Prop} (null : motive .null)
    (bool : ∀ value, motive (.bool value)) (number : ∀ x, motive (.number x))
    (string : ∀ content, motive (.string content))
    (array : ∀ items, (∀ item ∈ items, motive item) → motive (.array items))
    (object : ∀ fields, (∀ field ∈ fields, motive field.2) → motive (.object fields))
    (tree : Tree) : motive tree :=
  @Tree.rec motive (fun items => ∀ item ∈ items, motive item)
    (fun fields => ∀ field ∈ fields, motive field.2) (fun field => motive field.2)
    null bool number string array object (fun _ hnone => absurd hnone List.not_mem_nil)
    (fun _ _ hitem hitems => List.forall_mem_cons.mpr ⟨hitem, hitems⟩)
    (fun _ hnone => absurd hnone List.not_mem_nil)
    (fun _ _ hfield hfields => List.forall_mem_cons.mpr ⟨hfield, hfields⟩)
    (fun _ _ htree => htree) tree

theorem mapItems_eq (f : Rat → Rat) (items : List Tree) :
    mapItems f items = items.map (mapNumbers f) := by
  induction items with
  | nil => rfl
  | cons item items ih => rw [mapItems, ih, List.map_cons]

theorem mapFields_eq (f : Rat → Rat) (fields : List (List Rune × Tree)) :
    mapFields f fields = fields.map fun field => (field.1, field.2.mapNumbers f) := by
  induction fields with
  | nil => rfl
  | cons field fields ih => rw [mapFields, ih, List.map_cons]

theorem Every.here (h : Every p tree) : p tree := by
  cases h with
  | node _ here _ _ => exact here

theorem Every.item (h : Every p (.array items)) : ∀ item ∈ items, Every p item := by
  cases h with
  | node _ _ hitems _ => exact hitems items rfl

theorem Every.field (h : Every p (.object fields)) : ∀ field ∈ fields, Every p field.2 := by
  cases h with
  | node _ _ _ hfields => exact hfields fields rfl

theorem Every.imp {q : Tree → Prop} (himp : ∀ tree, p tree → q tree) (h : Every p tree) :
    Every q tree := by
  induction h with
  | node tree here _ _ hitems hfields =>
      exact .node tree (himp tree here) hitems hfields

theorem every_array :
    Every p (.array items) ↔ p (.array items) ∧ ∀ item ∈ items, Every p item := by
  constructor
  · exact fun h => ⟨h.here, h.item⟩
  · rintro ⟨here, hitems⟩
    refine .node _ here (fun others hothers => ?_) (fun others hothers => ?_)
    · exact Tree.array.inj hothers ▸ hitems
    · contradiction

theorem every_object :
    Every p (.object fields) ↔ p (.object fields) ∧ ∀ field ∈ fields, Every p field.2 := by
  constructor
  · exact fun h => ⟨h.here, h.field⟩
  · rintro ⟨here, hfields⟩
    refine .node _ here (fun others hothers => ?_) (fun others hothers => ?_)
    · contradiction
    · exact Tree.object.inj hothers ▸ hfields

theorem every_scalar (hscalar : tree.Within 0) : Every p tree ↔ p tree := by
  constructor
  · exact Every.here
  · intro here
    refine .node _ here (fun items hitems => ?_) (fun fields hfields => ?_)
    · exact (hitems ▸ hscalar : Within 0 (.array items)).elim
    · exact (hfields ▸ hscalar : Within 0 (.object fields)).elim

/-! ## Checking all trees below a tree -/

mutual

def subtrees : Tree → List Tree
  | .array items => .array items :: subtreesOfItems items
  | .object fields => .object fields :: subtreesOfFields fields
  | tree => [tree]

def subtreesOfItems : List Tree → List Tree
  | [] => []
  | item :: items => item.subtrees ++ subtreesOfItems items

def subtreesOfFields : List (List Rune × Tree) → List Tree
  | [] => []
  | (_, tree) :: fields => tree.subtrees ++ subtreesOfFields fields

end

theorem mem_subtreesOfItems {below : Tree} :
    below ∈ subtreesOfItems items ↔ ∃ item ∈ items, below ∈ item.subtrees := by
  induction items with
  | nil => simp [subtreesOfItems]
  | cons item items ih => simp [subtreesOfItems, ih]

theorem mem_subtreesOfFields {below : Tree} :
    below ∈ subtreesOfFields fields ↔ ∃ field ∈ fields, below ∈ field.2.subtrees := by
  induction fields with
  | nil => simp [subtreesOfFields]
  | cons field fields ih =>
      rw [subtreesOfFields, List.mem_append, ih, List.exists_mem_cons_iff]

theorem every_iff_subtrees : Every p tree ↔ ∀ below ∈ tree.subtrees, p below := by
  induction tree using Tree.induction with
  | null | bool | number | string =>
      rw [every_scalar (by trivial)]
      simp [subtrees]
  | array items ih =>
      rw [every_array, subtrees, List.forall_mem_cons]
      refine and_congr_right fun _ => ?_
      simp only [mem_subtreesOfItems, forall_exists_index, and_imp]
      rw [forall_comm]
      exact forall_congr' fun item => (forall_congr' (ih item)).trans forall_comm
  | object fields ih =>
      rw [every_object, subtrees, List.forall_mem_cons]
      refine and_congr_right fun _ => ?_
      simp only [mem_subtreesOfFields, forall_exists_index, and_imp]
      rw [forall_comm]
      exact forall_congr' fun field => (forall_congr' (ih field)).trans forall_comm

instance [DecidablePred p] : DecidablePred (Every p) := fun _ =>
  decidable_of_iff _ every_iff_subtrees.symm

instance : DecidablePred WellFormed := fun tree =>
  have (tree : Tree) : Decidable ((∀ content, tree = .string content → none ∉ content) ∧
      ∀ fields, tree = .object fields →
        (fields.map Prod.fst).Nodup ∧ ∀ field ∈ fields, none ∉ field.1) :=
    match tree with
    | .string content => decidable_of_iff (none ∉ content) (by simp)
    | .object fields => decidable_of_iff
        ((fields.map Prod.fst).Nodup ∧ ∀ field ∈ fields, none ∉ field.1) (by simp)
    | .null | .bool _ | .number _ | .array _ => .isTrue (by simp)
  inferInstanceAs (Decidable (Every _ tree))

instance {q : Rat → Prop} [DecidablePred q] : DecidablePred (Numbers q) := fun tree =>
  have (tree : Tree) : Decidable (∀ x, tree = .number x → q x) :=
    match tree with
    | .number x => decidable_of_iff (q x) (by simp)
    | .null | .bool _ | .string _ | .array _ | .object _ => .isTrue (by simp)
  inferInstanceAs (Decidable (Every _ tree))

/-! ## Agreement part by part -/

theorem mem_zip_left {First Second : Type*} {first : List First} {second : List Second}
    (h : first.length = second.length) {one : First} (hone : one ∈ first) :
    ∃ other, (one, other) ∈ first.zip second := by
  rw [← List.map_fst_zip h.le, List.mem_map] at hone
  obtain ⟨⟨_, other⟩, hpair, rfl⟩ := hone
  exact ⟨other, hpair⟩

section Pairs

variable {First Second : Type*} {first : List First} {second : List Second}
  {related holds : First → Second → Prop} {p : First → Prop}

theorem exists_of_mem_right (h : List.Forall₂ related first second) {other : Second}
    (hother : other ∈ second) : ∃ one ∈ first, related one other := by
  induction h with
  | nil => contradiction
  | cons hhead _ ih =>
      rcases List.mem_cons.mp hother with rfl | hmore
      · exact ⟨_, List.mem_cons_self, hhead⟩
      · obtain ⟨one, hone, hrelated⟩ := ih hmore
        exact ⟨one, List.mem_cons_of_mem _ hone, hrelated⟩

theorem forall₂_of_mem (h : List.Forall₂ related first second)
    (himp : ∀ one ∈ first, ∀ other, related one other → holds one other) :
    List.Forall₂ holds first second := by
  induction h with
  | nil => exact .nil
  | cons hhead _ ih =>
      obtain ⟨hone, hrest⟩ := List.forall_mem_cons.mp himp
      exact .cons (hone _ hhead) (ih hrest)

theorem forall₂_iff_left (h : List.Forall₂ related first second)
    (hiff : ∀ one other, related one other → (holds one other ↔ p one)) :
    List.Forall₂ holds first second ↔ ∀ one ∈ first, p one := by
  induction h with
  | nil => simp
  | cons hhead _ ih => rw [List.forall₂_cons, List.forall_mem_cons, ih, hiff _ _ hhead]

theorem keys_eq {Key : Type*} {fields : List (Key × First)} {others : List (Key × Second)}
    (h : List.Forall₂ (fun field other => other.1 = field.1) fields others) :
    others.map Prod.fst = fields.map Prod.fst := by
  rw [← List.forall₂_eq_eq_eq, List.forall₂_map_left_iff, List.forall₂_map_right_iff]
  exact h.flip

end Pairs

theorem agrees_array {others : List Tree} :
    (Tree.array items).Agrees (.array others) ↔ List.Forall₂ Agrees items others := by
  rw [List.forall₂_iff_zip]
  constructor
  · intro h
    cases h with
    | array _ _ length agree => exact ⟨length, fun hpair => agree _ hpair⟩
  · rintro ⟨hlength, hagree⟩
    exact .array _ _ hlength fun pair hpair => hagree hpair

theorem agrees_object {written others : List (List Rune × Tree)}
    (hnodup : (fields.map Prod.fst).Nodup) (hwritten : written.Perm others)
    (hkeys : List.Forall₂ (fun field other => other.1 = field.1) fields others) :
    (Tree.object fields).Agrees (.object written) ↔
      List.Forall₂ (fun field other => field.2.Agrees other.2) fields others := by
  have hsame := keys_eq hkeys
  constructor
  · intro h
    cases h with
    | object _ _ _ _ agree =>
        refine List.forall₂_iff_zip.mpr ⟨hkeys.length_eq, fun {field other} hpair => ?_⟩
        obtain ⟨hfield, hother⟩ := List.of_mem_zip hpair
        have hkey := List.forall₂_zip hkeys hpair
        exact agree field.1 field.2 other.2 hfield (hwritten.mem_iff.mpr (hkey ▸ hother))
  · intro h
    refine .object _ _ (hkeys.length_eq.trans hwritten.length_eq.symm) (fun key => ?_)
      fun key tree other hfield hother => ?_
    · rw [← hsame]
      exact ((hwritten.map Prod.fst).mem_iff).symm
    · obtain ⟨partner, hpair⟩ := mem_zip_left hkeys.length_eq hfield
      have hpartner := (List.of_mem_zip hpair).2
      have hkey : partner.1 = key := List.forall₂_zip hkeys hpair
      have hothers := List.inj_on_of_nodup_map (hsame ▸ hnodup : (others.map Prod.fst).Nodup)
      have := hothers hpartner (hwritten.mem_iff.mp hother) hkey
      subst this
      exact List.forall₂_zip h hpair

end Trees

end Tree

end NexPulse.Foundation.JsonText
