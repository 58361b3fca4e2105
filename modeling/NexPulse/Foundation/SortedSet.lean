import Mathlib.Data.Finset.Card
import Mathlib.Data.List.Sort
import Mathlib.Data.Prod.Lex
import Mathlib.Algebra.BigOperators.Group.List.Basic
import Mathlib.Algebra.Order.Monoid.Unbundled.Basic

/-!
# Sorted sets

A sorted set maps members to scores and keeps its entries in rank order: by
score, and by member where scores are equal.  Both facts are fields of the
structure, so the list of entries is determined by the entries it holds, and
two sorted sets with the same entries are equal.
-/

namespace NexPulse.Foundation

abbrev RankedEntry (Member Score : Type*) := Score ×ₗ Member

namespace RankedEntry

variable {Member Score : Type*}

def score (entry : RankedEntry Member Score) : Score := (ofLex entry).1

def member (entry : RankedEntry Member Score) : Member := (ofLex entry).2

def mk (member : Member) (score : Score) : RankedEntry Member Score :=
  toLex (score, member)

@[simp] theorem score_mk (m : Member) (s : Score) : score (mk m s) = s := rfl

@[simp] theorem member_mk (m : Member) (s : Score) : member (mk m s) = m := rfl

@[simp] theorem mk_inj {m m' : Member} {s s' : Score} :
    mk m s = mk m' s' ↔ m = m' ∧ s = s' := by
  constructor
  · intro h
    exact ⟨congrArg member h, congrArg score h⟩
  · rintro ⟨rfl, rfl⟩
    rfl

end RankedEntry

structure SortedSet (Member Score : Type*) [LinearOrder Member] [LinearOrder Score] where
  entries : List (RankedEntry Member Score)
  ranked : entries.Pairwise (· ≤ ·)
  members_nodup : (entries.map RankedEntry.member).Nodup

namespace SortedSet

variable {Member Score : Type*} [LinearOrder Member] [LinearOrder Score]

def Has (z : SortedSet Member Score) (member : Member) (score : Score) : Prop :=
  RankedEntry.mk member score ∈ z.entries

instance (z : SortedSet Member Score) (member : Member) (score : Score) :
    Decidable (z.Has member score) :=
  inferInstanceAs (Decidable (_ ∈ z.entries))

def card (z : SortedSet Member Score) : Nat := z.entries.length

def empty : SortedSet Member Score := ⟨[], by simp, by simp⟩

instance : EmptyCollection (SortedSet Member Score) := ⟨empty⟩

def filter (z : SortedSet Member Score) (keep : RankedEntry Member Score → Bool) :
    SortedSet Member Score where
  entries := z.entries.filter keep
  ranked := z.ranked.sublist List.filter_sublist
  members_nodup := z.members_nodup.sublist (List.filter_sublist.map _)

def remove (z : SortedSet Member Score) (member : Member) : SortedSet Member Score :=
  z.filter fun entry => entry.member ≠ member

/-- ZREMRANGEBYSCORE: drop every entry whose score lies between the bounds. -/
def removeRange (z : SortedSet Member Score) (min max : Score) :
    SortedSet Member Score :=
  z.filter fun entry => ¬ (min ≤ entry.score ∧ entry.score ≤ max)

/-- ZADD: a member that is already there only has its score overwritten. -/
def insert (z : SortedSet Member Score) (member : Member) (score : Score) :
    SortedSet Member Score where
  entries := (z.remove member).entries.orderedInsert (· ≤ ·) (.mk member score)
  ranked := (z.remove member).ranked.orderedInsert _ _
  members_nodup := by
    rw [((List.perm_orderedInsert _ _ _).map _).nodup_iff, List.map_cons, List.nodup_cons]
    exact ⟨by simp [remove, filter], (z.remove member).members_nodup⟩

def score? (z : SortedSet Member Score) (member : Member) : Option Score :=
  (z.entries.find? fun entry => entry.member = member).map RankedEntry.score

/-- ZINCRBY: an absent member counts as having score zero. -/
def increment [Add Score] [Zero Score] (z : SortedSet Member Score) (member : Member)
    (by' : Score) : SortedSet Member Score :=
  z.insert member ((z.score? member).getD 0 + by')

/--
ZREVRANGE: the entries from rank `start` to rank `stop`, both included, where
rank 0 is the highest and a negative index counts from the end.
-/
def revRange (z : SortedSet Member Score) (start stop : Int) : List (Member × Score) :=
  let size : Int := z.card
  let start := max (if start < 0 then size + start else start) 0
  let stop := if stop < 0 then size + stop else stop
  if stop < start ∨ size ≤ start then []
  else
    ((z.entries.reverse.drop start.toNat).take (min stop (size - 1) - start + 1).toNat).map
      fun entry => (entry.member, entry.score)

/-! ## Membership -/

@[simp] theorem not_has_empty (member : Member) (score : Score) :
    ¬ (∅ : SortedSet Member Score).Has member score := List.not_mem_nil

@[simp] theorem has_filter {z : SortedSet Member Score}
    {keep : RankedEntry Member Score → Bool} {member : Member} {score : Score} :
    (z.filter keep).Has member score ↔ z.Has member score ∧ keep (.mk member score) :=
  List.mem_filter

@[simp] theorem has_remove {z : SortedSet Member Score} {removed member : Member}
    {score : Score} :
    (z.remove removed).Has member score ↔ z.Has member score ∧ member ≠ removed := by
  rw [remove, has_filter, decide_eq_true_iff, RankedEntry.member_mk]

@[simp] theorem has_removeRange {z : SortedSet Member Score} {min max score : Score}
    {member : Member} :
    (z.removeRange min max).Has member score ↔
      z.Has member score ∧ ¬ (min ≤ score ∧ score ≤ max) := by
  rw [removeRange, has_filter, decide_eq_true_iff, RankedEntry.score_mk]

@[simp] theorem has_insert {z : SortedSet Member Score} {added member : Member}
    {new score : Score} :
    (z.insert added new).Has member score ↔
      (member = added ∧ score = new) ∨ (member ≠ added ∧ z.Has member score) := by
  have h : (z.insert added new).Has member score ↔
      RankedEntry.mk member score = .mk added new ∨ (z.remove added).Has member score :=
    List.mem_orderedInsert (· ≤ ·)
  rw [h, has_remove, RankedEntry.mk_inj, and_comm (a := z.Has member score)]

theorem has_insert_self (z : SortedSet Member Score) (member : Member) (score : Score) :
    (z.insert member score).Has member score := by simp

theorem has_unique {z : SortedSet Member Score} {member : Member} {first second : Score}
    (hfirst : z.Has member first) (hsecond : z.Has member second) : first = second := by
  have h := List.inj_on_of_nodup_map z.members_nodup hfirst hsecond rfl
  exact congrArg RankedEntry.score h

@[ext] theorem ext {z z' : SortedSet Member Score}
    (h : ∀ member score, z.Has member score ↔ z'.Has member score) : z = z' := by
  have hmem : ∀ entry, entry ∈ z.entries ↔ entry ∈ z'.entries :=
    fun entry => h entry.member entry.score
  have hperm : z.entries.Perm z'.entries :=
    (List.perm_ext_iff_of_nodup z.members_nodup.of_map z'.members_nodup.of_map).mpr hmem
  have heq : z.entries = z'.entries := hperm.eq_of_pairwise' z.ranked z'.ranked
  cases z
  cases z'
  simpa using heq

/-! ## Scores of members -/

theorem score?_eq_some_iff {z : SortedSet Member Score} {member : Member} {score : Score} :
    z.score? member = some score ↔ z.Has member score := by
  constructor
  · intro h
    obtain ⟨entry, hfind, rfl⟩ := Option.map_eq_some_iff.mp h
    have hmember : entry.member = member := by simpa using List.find?_some hfind
    subst hmember
    exact List.mem_of_find?_eq_some hfind
  · intro h
    cases hfind : z.entries.find? fun entry => entry.member = member with
    | none =>
        have := List.find?_eq_none.mp hfind _ h
        simp at this
    | some entry =>
        have hmember : entry.member = member := by simpa using List.find?_some hfind
        have hhas : z.Has member entry.score := by
          subst hmember
          exact List.mem_of_find?_eq_some hfind
        simp [score?, hfind, has_unique hhas h]

theorem score?_insert (z : SortedSet Member Score) (added member : Member) (new : Score) :
    (z.insert added new).score? member =
      if member = added then some new else z.score? member := by
  ext score
  rw [score?_eq_some_iff, has_insert]
  by_cases h : member = added
  · simp [h, eq_comm]
  · simp [h, score?_eq_some_iff]

@[simp] theorem score?_empty (member : Member) :
    (∅ : SortedSet Member Score).score? member = none := rfl

theorem score?_increment [Add Score] [Zero Score] (z : SortedSet Member Score)
    (added member : Member) (by' : Score) :
    ((z.increment added by').score? member).getD 0 =
      if member = added then (z.score? added).getD 0 + by'
      else (z.score? member).getD 0 := by
  rw [increment, score?_insert]
  split <;> rfl

/-! ## Cardinality -/

theorem eq_empty_iff_card {z : SortedSet Member Score} : z = ∅ ↔ z.card = 0 := by
  constructor
  · rintro rfl
    rfl
  · intro h
    have hnil : z.entries = [] := List.length_eq_zero_iff.mp h
    ext member score
    refine iff_of_false ?_ (not_has_empty member score)
    simp [Has, hnil]

theorem card_eq_card_members (z : SortedSet Member Score) :
    z.card = (z.entries.map RankedEntry.member).toFinset.card := by
  rw [List.toFinset_card_of_nodup z.members_nodup, List.length_map, card]

theorem mem_members_iff {z : SortedSet Member Score} {member : Member} :
    member ∈ (z.entries.map RankedEntry.member).toFinset ↔ ∃ score, z.Has member score := by
  rw [List.mem_toFinset, List.mem_map]
  constructor
  · rintro ⟨entry, hentry, rfl⟩
    exact ⟨entry.score, hentry⟩
  · rintro ⟨score, hscore⟩
    exact ⟨_, hscore, rfl⟩

theorem card_le_of_forall_has {Key : Type*} {z : SortedSet Member Score}
    {keys : Finset Key} {member : Key → Member} (hinj : Set.InjOn member keys)
    (h : ∀ key ∈ keys, ∃ score, z.Has (member key) score) : keys.card ≤ z.card := by
  rw [card_eq_card_members, ← Finset.card_image_of_injOn hinj]
  refine Finset.card_le_card fun name hname => ?_
  obtain ⟨key, hkey, rfl⟩ := Finset.mem_image.mp hname
  exact mem_members_iff.mpr (h key hkey)

theorem card_le_of_has_forall {Key : Type*} {z : SortedSet Member Score}
    {keys : Finset Key} {member : Key → Member}
    (h : ∀ name score, z.Has name score → ∃ key ∈ keys, member key = name) :
    z.card ≤ keys.card := by
  rw [card_eq_card_members]
  refine le_trans (Finset.card_le_card (t := keys.image member) fun name hname => ?_)
    Finset.card_image_le
  obtain ⟨score, hscore⟩ := mem_members_iff.mp hname
  exact Finset.mem_image.mpr (h name score hscore)

theorem card_eq_of_has_iff {Key : Type*} {z : SortedSet Member Score} {keys : Finset Key}
    {member : Key → Member} {score : Key → Score} (hinj : Set.InjOn member keys)
    (h : ∀ name value, z.Has name value ↔ ∃ key ∈ keys, member key = name ∧ score key = value) :
    z.card = keys.card := by
  apply le_antisymm
  · have hkeys : ∀ name value, z.Has name value → ∃ key ∈ keys, member key = name := by
      intro name value hhas
      obtain ⟨key, hkey, hname, -⟩ := (h name value).mp hhas
      exact ⟨key, hkey, hname⟩
    exact card_le_of_has_forall hkeys
  · refine card_le_of_forall_has hinj fun key hkey => ?_
    exact ⟨score key, (h _ _).mpr ⟨key, hkey, rfl, rfl⟩⟩

theorem filter_eq_self_of_card {z : SortedSet Member Score}
    {keep : RankedEntry Member Score → Bool} (h : (z.filter keep).card = z.card) :
    z.filter keep = z := by
  have hentries : z.entries.filter keep = z.entries := List.filter_sublist.eq_of_length h
  ext member score
  change _ ∈ z.entries.filter keep ↔ _ ∈ z.entries
  rw [hentries]

/-! ## Sum of the scores -/

def total [AddCommMonoid Score] (z : SortedSet Member Score) : Score :=
  (z.entries.map RankedEntry.score).sum

@[simp] theorem total_empty [AddCommMonoid Score] :
    (∅ : SortedSet Member Score).total = 0 := rfl

theorem total_insert [AddCommMonoid Score] (z : SortedSet Member Score) (member : Member)
    (score : Score) : (z.insert member score).total = score + (z.remove member).total := by
  rw [total, insert, ((List.perm_orderedInsert _ _ _).map _).sum_eq]
  rfl

theorem total_eq_add_remove [AddCommMonoid Score] (z : SortedSet Member Score)
    (member : Member) : z.total = (z.score? member).getD 0 + (z.remove member).total := by
  cases hscore : z.score? member with
  | none =>
      have hsame : z.remove member = z := by
        ext name score
        rw [has_remove]
        refine and_iff_left_of_imp fun hhas heq => ?_
        rw [heq, ← score?_eq_some_iff, hscore] at hhas
        contradiction
      simp [hsame]
  | some score =>
      have hhas := score?_eq_some_iff.mp hscore
      have hsame : z = z.insert member score := by
        ext name other
        rw [has_insert]
        constructor
        · intro h
          by_cases heq : name = member
          · subst heq
            exact .inl ⟨rfl, has_unique h hhas⟩
          · exact .inr ⟨heq, h⟩
        · rintro (⟨rfl, rfl⟩ | ⟨-, h⟩)
          · exact hhas
          · exact h
      conv_lhs => rw [hsame, total_insert]
      rfl

theorem total_increment [AddCommMonoid Score] (z : SortedSet Member Score)
    (member : Member) (by' : Score) : (z.increment member by').total = z.total + by' := by
  rw [increment, total_insert, total_eq_add_remove z member]
  ac_rfl

/-! ## The highest entries -/

section Top

variable (Has : Member → Score → Prop) (size : Nat) (Below : Member → Member → Prop)

def Outranks (first second : Member × Score) : Prop :=
  second.2 < first.2 ∨ second.2 = first.2 ∧ Below second.1 first.1

/-- The `count` highest of `size` entries, from the highest down. -/
structure TopRanking (count : Nat) (ranking : List (Member × Score)) : Prop where
  length_eq : ranking.length = min count size
  has : ∀ entry ∈ ranking, Has entry.1 entry.2
  members_nodup : (ranking.map Prod.fst).Nodup
  ordered : ranking.Pairwise (Outranks Below)
  highest : ∀ member score, Has member score → (member, score) ∉ ranking →
    ∀ entry ∈ ranking, Outranks Below entry (member, score)

end Top

def RankedEntry.pair (entry : RankedEntry Member Score) : Member × Score :=
  (entry.member, entry.score)

theorem outranks_of_lt {low high : RankedEntry Member Score} (h : low < high) :
    Outranks (· < ·) (RankedEntry.pair high) (RankedEntry.pair low) :=
  Prod.Lex.lt_iff.mp h

theorem revRange_zero (z : SortedSet Member Score) {count : Int} (h : 0 < count) :
    z.revRange 0 (count - 1) = (z.entries.reverse.take count.toNat).map RankedEntry.pair := by
  have hlength : z.entries.reverse.length = z.card := List.length_reverse
  have hstart : (max (if (0 : Int) < 0 then (z.card : Int) + 0 else 0) 0) = 0 := rfl
  have hstop : ¬ count - 1 < 0 := by omega
  simp only [revRange, hstart, if_neg hstop, Int.toNat_zero, List.drop_zero]
  split
  · next hempty =>
      have hnil : z.entries.reverse = [] := List.eq_nil_of_length_eq_zero (by omega)
      simp [hnil]
  · next hsome =>
      have htake : z.entries.reverse.take (min (count - 1) (z.card - 1) - 0 + 1).toNat =
          z.entries.reverse.take count.toNat := by
        rw [List.take_eq_take_iff]
        omega
      rw [htake]
      rfl

theorem revRange_all (z : SortedSet Member Score) :
    z.revRange 0 (-1) = z.entries.reverse.map RankedEntry.pair := by
  have hlength : z.entries.reverse.length = z.card := List.length_reverse
  have hstart : (max (if (0 : Int) < 0 then (z.card : Int) + 0 else 0) 0) = 0 := rfl
  have hstop : (-1 : Int) < 0 := by decide
  simp only [revRange, hstart, if_pos hstop, Int.toNat_zero, List.drop_zero]
  split
  · next hempty =>
      have hnil : z.entries.reverse = [] := List.eq_nil_of_length_eq_zero (by omega)
      simp [hnil]
  · next hsome =>
      rw [List.take_of_length_le (by omega)]
      rfl

theorem outranks_entries (z : SortedSet Member Score) :
    (z.entries.reverse.map RankedEntry.pair).Pairwise (Outranks (· < ·)) := by
  rw [List.pairwise_map, List.pairwise_reverse]
  have hdistinct : z.entries.Pairwise (· ≠ ·) := z.members_nodup.of_map
  exact (z.ranked.and hdistinct).imp fun hrank => outranks_of_lt (lt_of_le_of_ne hrank.1 hrank.2)

theorem topRanking_revRange (z : SortedSet Member Score) {count : Int} (h : 0 < count) :
    TopRanking z.Has z.card (· < ·) count.toNat (z.revRange 0 (count - 1)) := by
  have hsplit := List.take_append_drop count.toNat z.entries.reverse
  have hordered := z.outranks_entries
  rw [z.revRange_zero h]
  refine ⟨?_, ?_, ?_, ?_, ?_⟩
  · rw [List.length_map, List.length_take, List.length_reverse, card]
  · intro entry hentry
    obtain ⟨ranked, hmem, rfl⟩ := List.mem_map.mp hentry
    exact List.mem_reverse.mp (List.mem_of_mem_take hmem)
  · rw [List.map_map]
    refine List.Nodup.sublist ((List.take_sublist _ _).map _) ?_
    rw [List.map_reverse, List.nodup_reverse]
    exact z.members_nodup
  · exact hordered.sublist ((List.take_sublist _ _).map _)
  · intro member score hhas hleft entry hentry
    rw [← hsplit, List.map_append, List.pairwise_append] at hordered
    refine hordered.2.2 entry hentry (member, score) ?_
    have hmem : RankedEntry.mk member score ∈ z.entries.reverse := List.mem_reverse.mpr hhas
    rw [← hsplit, List.mem_append] at hmem
    rcases hmem with htaken | hdropped
    · exact absurd (List.mem_map.mpr ⟨_, htaken, rfl⟩) hleft
    · exact List.mem_map.mpr ⟨_, hdropped, rfl⟩

/-- A count of zero asks for the ranks from 0 to -1, which are all of them. -/
theorem topRanking_revRange_iff (z : SortedSet Member Score) {count : Int} (h : 0 ≤ count) :
    TopRanking z.Has z.card (· < ·) count.toNat (z.revRange 0 (count - 1)) ↔
      0 < count ∨ z.card = 0 := by
  constructor
  · intro htop
    by_contra hfails
    obtain ⟨hcount, hsome⟩ := not_or.mp hfails
    obtain rfl : count = 0 := by omega
    have hlength := htop.length_eq
    rw [Int.zero_sub, revRange_all, List.length_map, List.length_reverse] at hlength
    exact hsome (hlength.trans (Nat.zero_min _))
  · rintro (hcount | hempty)
    · exact z.topRanking_revRange hcount
    · have hnil : z.entries = [] := List.length_eq_zero_iff.mp hempty
      have hnone : z.revRange 0 (count - 1) = [] := by
        rw [revRange, if_pos (.inr (by simp [hempty]))]
      rw [hnone, hempty]
      exact ⟨(Nat.min_zero _).symm, by simp, List.nodup_nil, .nil, by simp⟩

/-! ## Sets that grow -/

def Grows (z later : SortedSet Member Score) : Prop :=
  ∀ member score, z.Has member score → ∃ raised, score ≤ raised ∧ later.Has member raised

section Grows

variable {z later last : SortedSet Member Score}

theorem Grows.refl (z : SortedSet Member Score) : z.Grows z :=
  fun _ score hhas => ⟨score, le_rfl, hhas⟩

theorem Grows.trans (h : z.Grows later) (hlast : later.Grows last) : z.Grows last := by
  intro member score hhas
  obtain ⟨raised, hle, hraised⟩ := h member score hhas
  obtain ⟨highest, hmore, hhighest⟩ := hlast member raised hraised
  exact ⟨highest, hle.trans hmore, hhighest⟩

theorem grows_increment [AddZeroClass Score] [AddLeftMono Score] (z : SortedSet Member Score)
    (added : Member) {by' : Score} (hby : 0 ≤ by') : z.Grows (z.increment added by') := by
  intro member score hhas
  by_cases hself : member = added
  · subst hself
    refine ⟨score + by', le_add_of_nonneg_right hby, ?_⟩
    rw [increment, score?_eq_some_iff.mpr hhas]
    exact has_insert_self _ _ _
  · exact ⟨score, le_rfl, has_insert.mpr (.inr ⟨hself, hhas⟩)⟩

theorem Grows.card_le (h : z.Grows later) : z.card ≤ later.card := by
  rw [card_eq_card_members z]
  refine card_le_of_forall_has (Set.injOn_id _) fun member hmember => ?_
  obtain ⟨score, hhas⟩ := mem_members_iff.mp hmember
  obtain ⟨raised, -, hraised⟩ := h member score hhas
  exact ⟨raised, hraised⟩

theorem exists_around {Item : Type*} {items : List Item} {index : Nat} {item : Item}
    (h : items[index]? = some item) :
    ∃ front back, items = front ++ item :: back ∧ front.length = index := by
  obtain ⟨hlt, rfl⟩ := List.getElem?_eq_some_iff.mp h
  refine ⟨items.take index, items.drop (index + 1), ?_, by simpa using hlt.le⟩
  rw [List.getElem_cons_drop, List.take_append_drop]

/--
The score at each rank grows with the set: whoever held a rank or a higher one
has at least its score now.
-/
theorem Grows.rank_le {below : Member → Member → Prop} {count : Nat}
    {ranking raisedRanking : List (Member × Score)} (h : z.Grows later)
    (htop : TopRanking z.Has z.card below count ranking)
    (hlater : TopRanking later.Has later.card below count raisedRanking) {rank : Nat}
    {entry raised : Member × Score} (hentry : ranking[rank]? = some entry)
    (hraised : raisedRanking[rank]? = some raised) : entry.2 ≤ raised.2 := by
  by_contra hlower
  rw [not_le] at hlower
  obtain ⟨front, back, hsplit, hlength⟩ := exists_around hentry
  obtain ⟨laterFront, laterBack, hlaterSplit, hlaterLength⟩ := exists_around hraised
  have hordered := htop.ordered
  have hlaterOrdered := hlater.ordered
  rw [hsplit, List.pairwise_append] at hordered
  rw [hlaterSplit, List.pairwise_append, List.pairwise_cons] at hlaterOrdered
  have hmembers : ((front ++ [entry]).map Prod.fst).Nodup := by
    refine htop.members_nodup.sublist (List.Sublist.map _ ?_)
    rw [hsplit]
    exact (List.Sublist.refl _).append (List.singleton_sublist.mpr List.mem_cons_self)
  have hscore : ∀ high ∈ front ++ [entry], entry.2 ≤ high.2 := by
    intro high hhigh
    rcases List.mem_append.mp hhigh with hfront | hself
    · rcases hordered.2.2 high hfront entry List.mem_cons_self with hlt | ⟨heq, -⟩
      · exact hlt.le
      · exact heq.le
    · rw [List.mem_singleton.mp hself]
  have hsub : (front ++ [entry]).map Prod.fst ⊆ laterFront.map Prod.fst := by
    intro member hmember
    obtain ⟨high, hhigh, rfl⟩ := List.mem_map.mp hmember
    have hranked : high ∈ ranking := by
      rw [hsplit, List.mem_append]
      rcases List.mem_append.mp hhigh with hfront | hself
      · exact .inl hfront
      · rw [List.mem_singleton.mp hself]
        exact .inr List.mem_cons_self
    obtain ⟨score, hle, hhas⟩ := h high.1 high.2 (htop.has high hranked)
    have habove : raised.2 < score := hlower.trans_le ((hscore high hhigh).trans hle)
    have hnot : ∀ other : Member × Score, Outranks below raised other → other.2 ≤ raised.2 := by
      rintro other (hlt | ⟨heq, -⟩)
      · exact hlt.le
      · exact heq.le
    have hmem : (high.1, score) ∈ raisedRanking := by
      by_contra hleft
      exact absurd (hnot _ (hlater.highest _ _ hhas hleft raised (List.mem_of_getElem? hraised)))
        (not_le.mpr habove)
    rw [hlaterSplit, List.mem_append, List.mem_cons] at hmem
    rcases hmem with hfront | hself | hback
    · exact List.mem_map.mpr ⟨_, hfront, rfl⟩
    · exact absurd (congrArg Prod.snd hself) habove.ne'
    · exact absurd (hnot _ (hlaterOrdered.2.1.1 _ hback)) (not_le.mpr habove)
  have hle := (List.subperm_of_subset hmembers hsub).length_le
  simp only [List.length_map, List.length_append, List.length_singleton] at hle
  omega

end Grows

end SortedSet

end NexPulse.Foundation
