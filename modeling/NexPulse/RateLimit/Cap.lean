import NexPulse.RateLimit.Limiter

/-!
# The cap of the sliding window

Fix an interval of one window's length.  As long as the entries of the calls
it has let through are still stored, the count of the next call covers them,
so no more than `limit` are let through.  A call that prunes one of these
entries has a reading a whole window later.  The cap is kept when no call of
the interval arrives after such a call.
-/

namespace NexPulse.RateLimit

open NexPulse.Foundation NexPulse.Foundation.Redis

def Prunes (window now earlier : Int) : Prop := 0 ≤ earlier ∧ earlier ≤ now - window

instance (window now earlier : Int) : Decidable (Prunes window now earlier) :=
  inferInstanceAs (Decidable (_ ∧ _))

def Apart (window first second : Int) : Prop :=
  first + window ≤ second ∨ second + window ≤ first

instance (window first second : Int) : Decidable (Apart window first second) :=
  inferInstanceAs (Decidable (_ ∨ _))

/--
No call arrives after a call that has pruned an entry less than a window away
from its own reading.  `arrivals` lists the readings in order of arrival.
-/
def NoOvertaking (window : Int) (arrivals : List Int) : Prop :=
  ∀ earlier pruner later, [earlier, pruner, later].Sublist arrivals →
    Prunes window pruner earlier → Apart window earlier later

def Outlives (window : Int) (readings : List Int) (entry : Int) : Prop :=
  ∀ pruner later, [pruner, later].Sublist readings →
    Prunes window pruner entry → Apart window entry later

instance (window : Int) (arrivals : List Int) : Decidable (NoOvertaking window arrivals) :=
  decidable_of_iff
    (∀ calls ∈ arrivals.sublistsLen 3, ∀ earlier ∈ calls[0]?, ∀ pruner ∈ calls[1]?,
      ∀ later ∈ calls[2]?, Prunes window pruner earlier → Apart window earlier later) <| by
    constructor
    · intro h earlier pruner later hsub
      exact h _ (List.mem_sublistsLen.mpr ⟨hsub, rfl⟩) _ rfl _ rfl _ rfl
    · intro h calls hcalls earlier hearlier pruner hpruner later hlater
      obtain ⟨hsub, hlength⟩ := List.mem_sublistsLen.mp hcalls
      obtain ⟨first, second, third, rfl⟩ := List.length_eq_three.mp hlength
      obtain rfl : first = earlier := by simpa using hearlier
      obtain rfl : second = pruner := by simpa using hpruner
      obtain rfl : third = later := by simpa using hlater
      exact h _ _ _ hsub

theorem NoOvertaking.tail {window now : Int} {readings : List Int}
    (h : NoOvertaking window (now :: readings)) : NoOvertaking window readings :=
  fun earlier pruner later hsub => h earlier pruner later (hsub.cons now)

theorem NoOvertaking.head {window now : Int} {readings : List Int}
    (h : NoOvertaking window (now :: readings)) : Outlives window readings now :=
  fun pruner later hsub => h now pruner later (hsub.cons_cons now)

theorem Outlives.tail {window now entry : Int} {readings : List Int}
    (h : Outlives window (now :: readings) entry) : Outlives window readings entry :=
  fun pruner later hsub => h pruner later (hsub.cons now)

def InWindow (start window reading : Int) : Prop := start < reading ∧ reading ≤ start + window

theorem InWindow.not_apart {start window first second : Int}
    (hfirst : InWindow start window first) (hsecond : InWindow start window second) :
    ¬ Apart window first second := by
  unfold InWindow at hfirst hsecond
  unfold Apart
  omega

def Closed (start window : Int) (readings : List Int) : Prop :=
  ∀ reading ∈ readings, ¬ InWindow start window reading

theorem closed_of_apart {start window entry : Int} {readings : List Int}
    (hentry : InWindow start window entry)
    (h : ∀ later ∈ readings, Apart window entry later) : Closed start window readings :=
  fun later hlater hin => hentry.not_apart hin (h later hlater)

section Log

variable {start window : Int} {call : Int × Except Error Bool}
  {calls : List (Int × Except Error Bool)}

theorem admittedWithin_cons :
    admittedWithin start window (call :: calls) =
      admittedWithin start window calls + if Admitted start window call then 1 else 0 := by
  simp [admittedWithin, List.countP_cons]

theorem Admitted.inWindow (h : Admitted start window call) : InWindow start window call.1 :=
  ⟨h.1, h.2.1⟩

end Log

theorem admittedWithin_of_closed {before : Int → Db → Db} {userID : String}
    {limit window start : Int} {readings : List Int} (h : Closed start window readings)
    (db : Db) :
    admittedWithin start window (serveWith before userID limit window readings db) = 0 := by
  induction readings generalizing db with
  | nil => rfl
  | cons now readings ih =>
      obtain ⟨hnow, hrest⟩ := List.forall_mem_cons.mp h
      rw [serveWith, admittedWithin_cons, ih hrest, if_neg fun hin => hnow hin.inWindow]

/-! ## The cap while entries are kept -/

/--
What a way of serving calls must guarantee between them, with `Good` an
invariant of the calls still to come and the database: the key holds a sorted
set, and an entry that disappears is a window away from every later reading.
-/
structure Keeps (before : Int → Db → Db) (userID : String) (limit window : Int)
    (Good : List Int → Db → Prop) : Prop where
  holdsSet : ∀ {now readings db}, Good (now :: readings) db →
    HoldsSet (before now db (userKey userID))
  entry : ∀ {now readings db reading}, Good (now :: readings) db →
    (setOf (db (userKey userID))).Has (toString reading) reading →
      (setOf (before now db (userKey userID))).Has (toString reading) reading ∨
        ∀ later ∈ now :: readings, Apart window reading later
  next : ∀ {now readings db}, Good (now :: readings) db →
    Good readings (allowRequest userID limit window now (before now db)).2

def Stored (set : SortedSet String Int) (admitted : Finset Int) : Prop :=
  ∀ reading ∈ admitted, set.Has (toString reading) reading

theorem Stored.card_le {set : SortedSet String Int} {admitted : Finset Int} {limit : Int}
    (h : Stored set admitted) (hcount : (set.card : Int) ≤ limit) :
    admitted.card ≤ limit.toNat := by
  have hinj : Set.InjOn (fun reading : Int => toString reading) admitted :=
    fun _ _ _ _ heq => toString_inj.mp heq
  have hcard : admitted.card ≤ set.card :=
    SortedSet.card_le_of_forall_has hinj fun reading hreading => ⟨reading, h reading hreading⟩
  omega

theorem Stored.record {window now : Int} {set : SortedSet String Int} {admitted : Finset Int}
    (h : Stored set admitted) (hnew : now ∉ admitted)
    (hkept : ∀ reading ∈ admitted, ¬ Prunes window now reading) :
    Stored (record window now set) (insert now admitted) := by
  intro reading hreading
  rcases Finset.mem_insert.mp hreading with rfl | hold
  · exact SortedSet.has_insert_self _ _ _
  · refine has_record.mpr (.inr ⟨fun heq => ?_, h reading hold, hkept reading hold⟩)
    exact hnew (toString_inj.mp heq ▸ hold)

section Cap

variable {before : Int → Db → Db} {userID : String} {limit window start : Int}
  {Good : List Int → Db → Prop}

def Followed (start window : Int) (readings : List Int) (admitted : Finset Int) : Prop :=
  ∀ reading ∈ admitted, reading ∉ readings ∧
    InWindow start window reading ∧ Outlives window readings reading

theorem Followed.tail {now : Int} {readings : List Int} {admitted : Finset Int}
    (h : Followed start window (now :: readings) admitted) :
    Followed start window readings admitted := by
  intro reading hreading
  obtain ⟨hnotin, hin, houtlives⟩ := h reading hreading
  exact ⟨fun hmem => hnotin (List.mem_cons_of_mem _ hmem), hin, houtlives.tail⟩

theorem Followed.not_prunes {now reading : Int} {readings : List Int} {admitted : Finset Int}
    (h : Followed start window (now :: readings) admitted)
    (hopen : ¬ Closed start window (now :: readings)) (hreading : reading ∈ admitted) :
    ¬ Prunes window now reading := by
  intro hprunes
  obtain ⟨-, hin, houtlives⟩ := h reading hreading
  refine hopen (closed_of_apart hin ?_)
  refine List.forall_mem_cons.mpr ⟨?_, fun later hlater => ?_⟩
  · exact .inl (by have := hprunes.2; omega)
  · exact houtlives now later ((List.singleton_sublist.mpr hlater).cons_cons now) hprunes

theorem Keeps.stored_allowRequest (keeps : Keeps before userID limit window Good)
    (hwindow : 0 < window) {now : Int} {readings : List Int} {db : Db} {admitted : Finset Int}
    (hgood : Good (now :: readings) db)
    (hfollowed : Followed start window (now :: readings) admitted)
    (hopen : ¬ Closed start window (now :: readings))
    (hstored : Stored (setOf (db (userKey userID))) admitted) :
    Stored (setOf ((allowRequest userID limit window now (before now db)).2 (userKey userID)))
      (insert now admitted) := by
  have hbefore : Stored (setOf (before now db (userKey userID))) admitted := by
    intro reading hreading
    refine (keeps.entry hgood (hstored reading hreading)).resolve_right ?_
    exact fun hfar => hopen (closed_of_apart (hfollowed reading hreading).2.1 hfar)
  have hnew : now ∉ admitted := fun hmem => (hfollowed now hmem).1 List.mem_cons_self
  rw [setOf_allowRequest (keeps.holdsSet hgood) hwindow]
  exact hbefore.record hnew fun reading hreading => hfollowed.not_prunes hopen hreading

/--
The invariant of the cap: `admitted` are the calls of the interval let through
so far, and either their entries are all stored or the interval is closed.
-/
theorem card_add_admittedWithin_le (keeps : Keeps before userID limit window Good)
    (hwindow : 0 < window) {readings : List Int} {db : Db} {admitted : Finset Int}
    (hgood : Good readings db) (hnodup : readings.Nodup)
    (horder : NoOvertaking window readings)
    (hfollowed : Followed start window readings admitted)
    (hcard : admitted.card ≤ limit.toNat)
    (hstored : Stored (setOf (db (userKey userID))) admitted ∨ Closed start window readings) :
    admitted.card +
      admittedWithin start window (serveWith before userID limit window readings db) ≤
        limit.toNat := by
  induction readings generalizing db admitted with
  | nil => simpa [serveWith, admittedWithin] using hcard
  | cons now readings ih =>
      by_cases hclosed : Closed start window (now :: readings)
      · rw [admittedWithin_of_closed hclosed]
        exact hcard
      have hset := keeps.holdsSet hgood
      have hrecorded := keeps.stored_allowRequest hwindow hgood hfollowed hclosed
        (hstored.resolve_right hclosed)
      obtain ⟨hnotin, hnodup⟩ := List.nodup_cons.mp hnodup
      rw [serveWith, admittedWithin_cons]
      by_cases hcall : Admitted start window
          (now, (allowRequest userID limit window now (before now db)).1)
      · have hcount : (insert now admitted).card ≤ limit.toNat := by
          refine hrecorded.card_le ?_
          have hverdict := hcall.2.2
          rw [allowRequest_verdict hset, Except.ok.injEq, decide_eq_true_iff] at hverdict
          rwa [setOf_allowRequest hset hwindow]
        have hnow : now ∉ readings ∧ InWindow start window now ∧ Outlives window readings now :=
          ⟨hnotin, hcall.inWindow, horder.head⟩
        have hle := ih (keeps.next hgood) hnodup horder.tail
          (Finset.forall_mem_insert _ _ _ |>.mpr ⟨hnow, hfollowed.tail⟩) hcount (.inl hrecorded)
        have hnew : now ∉ admitted := fun hmem => (hfollowed now hmem).1 List.mem_cons_self
        rw [Finset.card_insert_of_notMem hnew] at hle
        rw [if_pos hcall]
        omega
      · rw [if_neg hcall]
        exact ih (keeps.next hgood) hnodup horder.tail hfollowed.tail hcard
          (.inl fun reading hreading => hrecorded reading (Finset.mem_insert_of_mem hreading))

theorem admittedWithin_serveWith_le (keeps : Keeps before userID limit window Good)
    (hlimit : 1 ≤ limit) (hwindow : 0 < window) {readings : List Int} {db : Db}
    (hgood : Good readings db) (hnodup : readings.Nodup)
    (horder : NoOvertaking window readings) :
    (admittedWithin start window (serveWith before userID limit window readings db) : Int) ≤
      limit := by
  have hnone : Stored (setOf (db (userKey userID))) ∅ := by simp [Stored]
  have hle : (∅ : Finset Int).card +
      admittedWithin start window (serveWith before userID limit window readings db) ≤
        limit.toNat :=
    card_add_admittedWithin_le keeps hwindow hgood hnodup horder (by simp [Followed]) (by simp)
      (.inl hnone)
  rw [Finset.card_empty] at hle
  omega

end Cap

/-! ## Arrivals in any order -/

theorem keeps_serveArrivals (userID : String) (limit window : Int) :
    Keeps (fun _ db => db) userID limit window fun _ db => HoldsSet (db (userKey userID)) where
  holdsSet hset := hset
  entry _ hhas := .inl hhas
  next hset := holdsSet_allowRequest hset

/--
When each pipeline runs as a unit, the cap holds on every interval for any
arrival order in which no call is overtaken.
-/
theorem distributed_cap_of_noOvertaking (userID : String) {limit window : Int}
    (hlimit : 1 ≤ limit) {arrivals : List Int} (hnodup : arrivals.Nodup)
    (horder : NoOvertaking window arrivals) {db : Db} (hset : HoldsSet (db (userKey userID)))
    (start : Int) :
    (admittedWithin start window (serveArrivals userID limit window arrivals db) : Int) ≤
      limit := by
  by_cases hwindow : 0 < window
  · exact admittedWithin_serveWith_le (keeps_serveArrivals userID limit window) hlimit hwindow
      hset hnodup horder
  · have hclosed : Closed start window arrivals := fun reading _ hin => by
      unfold InWindow at hin
      omega
    rw [serveArrivals, admittedWithin_of_closed hclosed]
    omega

theorem distributed_cap_in_order :
    (admittedWithin 2 10
      (serveArrivals "alice" 2 10 [5, 3, 14, 30] fun _ => none) : Int) ≤ 2 :=
  distributed_cap_of_noOvertaking "alice" (by decide) (by decide) (by decide) (by trivial) 2

/--
Two calls are let through, a third with a reading one window later prunes
them, and a fourth that read its clock early finds only that entry and its own.
-/
theorem distributed_cap_fails :
    [1, 2, 1000000002, 3].Nodup ∧ ¬ (admittedWithin 0 1000000000
      (serveArrivals "alice" 2 1000000000 [1, 2, 1000000002, 3] fun _ => none) : Int) ≤ 2 := by
  decide

end NexPulse.RateLimit
