import NexPulse.RateLimit.Sequential

/-!
# Variants of the limiter

The commands of `AllowRequest` with two parameters: the score that a reading is
stored under, and whether EXPIRE is sent.  With exact scores and EXPIRE they
are the pipeline of the code.  For calls at strictly increasing readings the
verdicts of every variant come down to a count over the readings alone, so two
variants are compared by comparing their counts.
-/

namespace NexPulse.RateLimit

open NexPulse.Foundation NexPulse.Foundation.Redis

def commands (score : Int → Int) (expires : Bool) (userID : String) (window now : Int) :
    List Command :=
  let key := userKey userID
  let windowStart := now - window
  [⟨key, .zRemRangeByScore 0 (score windowStart)⟩,
   ⟨key, .zAdd (score now) (toString now)⟩,
   ⟨key, .zCard⟩] ++
  if expires then [⟨key, .expire (formatSec window)⟩] else []

theorem pipeline_eq_commands (userID : String) (window now : Int) :
    pipeline userID window now = commands id true userID window now := rfl

/-- Calls whose commands run at the instant read; a key vanishes at its deadline. -/
def serveCommands (score : Int → Int) (expires : Bool) (userID : String) (limit window : Int) :
    List Int → Db → List (Int × Except Error Bool)
  | [], _ => []
  | now :: readings, db =>
      let result := execAll now (commands score expires userID window now) (db.purge now)
      (now, verdict limit result.1) ::
        serveCommands score expires userID limit window readings result.2

theorem serve_eq_serveCommands (userID : String) (limit window : Int) (readings : List Int)
    (db : Db) : serve userID limit window readings db =
      serveCommands id true userID limit window readings db := by
  induction readings generalizing db with
  | nil => rfl
  | cons now readings ih =>
      rw [serveCommands, ← ih]
      rfl

/-! ## What a call counts -/

def timeToLive (window : Int) : Int := formatSec window * nanosecondsPerSecond

/--
The earlier readings, latest first, back to the last pause of at least `ttl`; a
pause before `now` itself leaves none.
-/
def sincePause (ttl : Int) : Int → List Int → List Int
  | _, [] => []
  | now, last :: earlier =>
      if last + ttl ≤ now then [] else last :: sincePause ttl last earlier

def kept (expires : Bool) (window now : Int) (earlier : List Int) : List Int :=
  if expires then sincePause (timeToLive window) now earlier else earlier

def Pruned (score : Int → Int) (window now reading : Int) : Prop :=
  0 ≤ score reading ∧ score reading ≤ score (now - window)

instance (score : Int → Int) (window now reading : Int) :
    Decidable (Pruned score window now reading) :=
  inferInstanceAs (Decidable (_ ∧ _))

/-- The readings that the call at `now` finds and does not remove, and its own. -/
def counted (score : Int → Int) (expires : Bool) (window now : Int) (earlier : List Int) : Nat :=
  ((kept expires window now earlier).countP fun reading =>
    ¬ Pruned score window now reading) + 1

section Kept

variable {ttl window now : Int} {earlier : List Int} {expires : Bool}

theorem sincePause_sublist (ttl now : Int) (earlier : List Int) :
    (sincePause ttl now earlier).Sublist earlier := by
  induction earlier generalizing now with
  | nil => exact .slnil
  | cons last earlier ih =>
      rw [sincePause]
      split
      · exact List.nil_sublist _
      · exact (ih last).cons_cons last

theorem kept_sublist (expires : Bool) (window now : Int) (earlier : List Int) :
    (kept expires window now earlier).Sublist earlier := by
  unfold kept
  split
  · exact sincePause_sublist _ _ _
  · exact List.Sublist.refl _

theorem kept_cons (expires : Bool) (window now last : Int) (earlier : List Int) :
    kept expires window now (last :: earlier) =
      if expires ∧ last + timeToLive window ≤ now then []
      else last :: kept expires window last earlier := by
  cases expires with
  | false => simp [kept]
  | true => simp [kept, sincePause]

end Kept

/-! ## One call -/

def recordAs (score : Int → Int) (window now : Int) (set : SortedSet String Int) :
    SortedSet String Int :=
  (set.removeRange 0 (score (now - window))).insert (toString now) (score now)

section OneCall

variable {score : Int → Int} {expires : Bool} {userID : String} {limit window now : Int} {db : Db}

theorem card_recordAs_pos (score : Int → Int) (window now : Int) (set : SortedSet String Int) :
    (recordAs score window now set).card ≠ 0 := by
  rw [Ne, ← SortedSet.eq_empty_iff_card]
  intro hempty
  have hhas : (recordAs score window now set).Has (toString now) (score now) :=
    SortedSet.has_insert_self _ _ _
  rw [hempty] at hhas
  exact SortedSet.not_has_empty _ _ hhas

theorem commands_onSetAt (score : Int → Int) (expires : Bool) (userID : String)
    (window now : Int) : OnSetAt (userKey userID) (commands score expires userID window now) := by
  intro command hcommand
  cases expires with
  | false =>
      simp only [commands, List.mem_cons, List.mem_append, List.not_mem_nil, or_false,
        Bool.false_eq_true, if_false] at hcommand
      rcases hcommand with rfl | rfl | rfl <;> simp
  | true =>
      simp only [commands, List.mem_cons, List.mem_append, List.not_mem_nil, or_false,
        if_true] at hcommand
      rcases hcommand with (rfl | rfl | rfl) | rfl <;> simp

theorem setOf_added (hset : HoldsSet (db (userKey userID))) :
    setOf ((execAll now ((commands score expires userID window now).take 2) db).2
      (userKey userID)) = recordAs score window now (setOf (db (userKey userID))) := by
  have hon : OnSetAt (userKey userID) ((commands score expires userID window now).take 2) :=
    fun command hcommand => commands_onSetAt score expires userID window now command
      (List.mem_of_mem_take hcommand)
  rw [setOf_execAll hset hon]
  rfl

theorem verdict_commands (hset : HoldsSet (db (userKey userID))) :
    verdict limit (execAll now (commands score expires userID window now) db).1 =
      .ok (decide (((recordAs score window now (setOf (db (userKey userID)))).card : Int) ≤
        limit)) := by
  have hon := commands_onSetAt score expires userID window now
  have herror : firstError (execAll now (commands score expires userID window now) db).1 = none :=
    firstError_eq_none (execAll_ne_error hset hon)
  have hadded : OnSetAt (userKey userID) ((commands score expires userID window now).take 2) :=
    fun command hcommand => hon command (List.mem_of_mem_take hcommand)
  have hcount := @countVal_execAll userID now db _ (if expires then
    [⟨userKey userID, .expire (formatSec window)⟩] else []) hset hadded rfl
  rw [setOf_added hset] at hcount
  rw [verdict, herror]
  exact congrArg (fun count : Int => Except.ok (decide (count ≤ limit))) hcount

theorem cell_counted (hset : HoldsSet (db (userKey userID))) :
    ∃ deadline, (execAll now (commands score false userID window now) db).2 (userKey userID) =
      some ⟨.sortedSet (recordAs score window now (setOf (db (userKey userID)))), deadline⟩ := by
  have hon := commands_onSetAt score false userID window now
  have hrecorded : setOf ((execAll now (commands score false userID window now) db).2
      (userKey userID)) = recordAs score window now (setOf (db (userKey userID))) := by
    rw [setOf_execAll hset hon]
    rfl
  have hsome := card_recordAs_pos score window now (setOf (db (userKey userID)))
  rw [← hrecorded] at hsome ⊢
  exact exists_eq_some_of_setOf (holdsSet_execAll hset hon) hsome

theorem commands_true (score : Int → Int) (userID : String) (window now : Int) :
    commands score true userID window now = commands score false userID window now ++
      [⟨userKey userID, .expire (formatSec window)⟩] := rfl

theorem persistent_commands (h : Persistent (db (userKey userID))) :
    Persistent ((execAll now (commands score false userID window now) db).2
      (userKey userID)) := by
  refine persistent_execAll h fun command hcommand => ?_
  simp only [commands, List.mem_cons, List.mem_append, List.not_mem_nil, or_false,
    Bool.false_eq_true, if_false] at hcommand
  rcases hcommand with rfl | rfl | rfl <;> simp

theorem setOf_purge_commands (hset : HoldsSet (db (userKey userID)))
    (hlasting : expires = false → Persistent (db (userKey userID))) {later : Int}
    (hlater : now < later) :
    setOf (((execAll now (commands score expires userID window now) db).2).purge later
      (userKey userID)) =
      if expires ∧ now + timeToLive window ≤ later then ∅
      else recordAs score window now (setOf (db (userKey userID))) := by
  obtain ⟨deadline, hcell⟩ := @cell_counted score userID window now db hset
  cases expires with
  | false =>
      rw [purge_of_persistent later (persistent_commands (hlasting rfl)), hcell]
      simp [Redis.setOf]
  | true =>
      have hexpire : (execAll now (commands score true userID window now) db).2
          (userKey userID) = ((Op.expire (formatSec window)).apply now
            ((execAll now (commands score false userID window now) db).2 (userKey userID))).2 := by
        rw [commands_true, execAll_append]
        exact Command.exec_self now ⟨userKey userID, .expire (formatSec window)⟩ _
      rw [hcell] at hexpire
      unfold Db.purge
      rw [hexpire]
      by_cases hseconds : formatSec window ≤ 0
      · have hgone : now + timeToLive window ≤ later := by
          have : timeToLive window ≤ 0 := by
            unfold timeToLive nanosecondsPerSecond
            omega
          omega
        simp [Op.apply, hseconds, hgone]
      · by_cases hgone : now + timeToLive window ≤ later
        · have hdead : ¬ later < now + formatSec window * nanosecondsPerSecond := not_lt.mpr hgone
          simp [Op.apply, hseconds, hgone, Option.filter, Cell.live, hdead]
        · have hlive : later < now + formatSec window * nanosecondsPerSecond := not_le.mp hgone
          simp [Op.apply, hseconds, hgone, Option.filter, Cell.live, hlive, Redis.setOf]

end OneCall

/-! ## Whole runs -/

structure Ran (score : Int → Int) (expires : Bool) (userID : String) (window : Int)
    (earlier : List Int) (db : Db) : Prop where
  holdsSet : HoldsSet (db (userKey userID))
  lasting : expires = false → Persistent (db (userKey userID))
  descending : earlier.Pairwise (· > ·)
  found : ∀ now, (∀ last ∈ earlier, last < now) → ∀ member value,
    ((setOf (db.purge now (userKey userID))).removeRange 0 (score (now - window))).Has
        member value ↔
      ∃ reading ∈ kept expires window now earlier, ¬ Pruned score window now reading ∧
        toString reading = member ∧ score reading = value

section Ran

variable {score : Int → Int} {expires : Bool} {userID : String} {limit window now : Int}
  {earlier readings : List Int} {db : Db}

theorem ran_new (hnew : db (userKey userID) = none) : Ran score expires userID window [] db where
  holdsSet := by rw [hnew]; trivial
  lasting _ := by rw [hnew]; exact persistent_none
  descending := .nil
  found now _ member value := by
    have hpurge : db.purge now (userKey userID) = none := by simp [Db.purge, hnew]
    have hkept : kept expires window now [] = [] := by cases expires <;> rfl
    rw [hpurge, hkept]
    simp

theorem Ran.has_recordAs (h : Ran score expires userID window earlier db)
    (hlater : ∀ last ∈ earlier, last < now) (member : String) (value : Int) :
    (recordAs score window now (setOf (db.purge now (userKey userID)))).Has member value ↔
      (toString now = member ∧ score now = value) ∨
        ∃ reading ∈ kept expires window now earlier, ¬ Pruned score window now reading ∧
          toString reading = member ∧ score reading = value := by
  rw [recordAs, SortedSet.has_insert, h.found now hlater]
  constructor
  · rintro (⟨rfl, rfl⟩ | ⟨-, hold⟩)
    · exact .inl ⟨rfl, rfl⟩
    · exact .inr hold
  · rintro (⟨rfl, rfl⟩ | ⟨reading, hkept, hold, rfl, rfl⟩)
    · exact .inl ⟨rfl, rfl⟩
    · refine .inr ⟨fun heq => ?_, reading, hkept, hold, rfl, rfl⟩
      have hlt := hlater reading ((kept_sublist _ _ _ _).subset hkept)
      exact absurd (toString_inj.mp heq) hlt.ne

theorem Ran.card_recordAs (h : Ran score expires userID window earlier db)
    (hlater : ∀ last ∈ earlier, last < now) :
    (recordAs score window now (setOf (db.purge now (userKey userID)))).card =
      counted score expires window now earlier := by
  let found := (kept expires window now earlier).filter fun reading =>
    ¬ Pruned score window now reading
  have hsub : found.Sublist earlier := List.filter_sublist.trans (kept_sublist _ _ _ _)
  have hnew : now ∉ found.toFinset := by
    intro hmem
    exact lt_irrefl now (hlater now (hsub.subset (List.mem_toFinset.mp hmem)))
  have hnodup : found.Nodup := (h.descending.imp fun hgt => hgt.ne').sublist hsub
  have hinj : Set.InjOn (fun reading : Int => toString reading)
      (insert now found.toFinset : Finset Int) := fun _ _ _ _ heq => toString_inj.mp heq
  have hhas (member : String) (value : Int) :
      (recordAs score window now (setOf (db.purge now (userKey userID)))).Has member value ↔
        ∃ reading ∈ insert now found.toFinset,
          toString reading = member ∧ score reading = value := by
    rw [h.has_recordAs hlater]
    simp [found, and_assoc]
  rw [SortedSet.card_eq_of_has_iff hinj hhas, Finset.card_insert_of_notMem hnew,
    List.toFinset_card_of_nodup hnodup, counted, List.countP_eq_length_filter]

theorem Pruned.mono (hscore : Monotone score) {later reading : Int} (h : now ≤ later)
    (hpruned : Pruned score window now reading) : Pruned score window later reading :=
  ⟨hpruned.1, hpruned.2.trans (hscore (by omega))⟩

theorem Ran.next (h : Ran score expires userID window earlier db) (hscore : Monotone score)
    (hlater : ∀ last ∈ earlier, last < now) :
    Ran score expires userID window (now :: earlier)
      (execAll now (commands score expires userID window now) (db.purge now)).2 where
  holdsSet := holdsSet_execAll (holdsSet_purge now h.holdsSet) (commands_onSetAt _ _ _ _ _)
  lasting := by
    rintro rfl
    refine persistent_commands ?_
    rw [purge_of_persistent now (h.lasting rfl)]
    exact h.lasting rfl
  descending := List.pairwise_cons.mpr ⟨hlater, h.descending⟩
  found later hnext member value := by
    have hnow : now < later := hnext now List.mem_cons_self
    have hlasting : expires = false → Persistent (db.purge now (userKey userID)) := by
      intro hexpires
      rw [purge_of_persistent now (h.lasting hexpires)]
      exact h.lasting hexpires
    rw [setOf_purge_commands (holdsSet_purge now h.holdsSet) hlasting hnow, kept_cons]
    split
    · simp
    · rw [SortedSet.has_removeRange, h.has_recordAs hlater]
      constructor
      · rintro ⟨⟨rfl, rfl⟩ | ⟨reading, hkept, -, rfl, rfl⟩, hout⟩
        · exact ⟨now, List.mem_cons_self, hout, rfl, rfl⟩
        · exact ⟨reading, List.mem_cons_of_mem _ hkept, hout, rfl, rfl⟩
      · rintro ⟨reading, hkept, hout, rfl, rfl⟩
        refine ⟨?_, hout⟩
        rcases List.mem_cons.mp hkept with rfl | hold
        · exact .inl ⟨rfl, rfl⟩
        · exact .inr ⟨reading, hold, fun hpruned => hout (hpruned.mono hscore hnow.le), rfl, rfl⟩

theorem Ran.verdicts (h : Ran score expires userID window earlier db) (hscore : Monotone score)
    (hincreasing : readings.Pairwise (· < ·))
    (hlater : ∀ last ∈ earlier, ∀ reading ∈ readings, last < reading) {index : Nat}
    (hindex : readings[index]? = some now) :
    (serveCommands score expires userID limit window readings db)[index]? = some (now,
      .ok (decide ((counted score expires window now
        ((readings.take index).reverse ++ earlier) : Int) ≤ limit))) := by
  induction readings generalizing earlier db index with
  | nil => simp at hindex
  | cons first readings ih =>
      have hfirst : ∀ last ∈ earlier, last < first :=
        fun last hlast => hlater last hlast first List.mem_cons_self
      cases index with
      | zero =>
          obtain rfl : first = now := by simpa using hindex
          rw [serveCommands, List.getElem?_cons_zero,
            verdict_commands (holdsSet_purge first h.holdsSet), h.card_recordAs hfirst]
          rfl
      | succ index =>
          have hafter : ∀ last ∈ first :: earlier, ∀ reading ∈ readings, last < reading := by
            intro last hlast reading hreading
            rcases List.mem_cons.mp hlast with rfl | hold
            · exact List.rel_of_pairwise_cons hincreasing hreading
            · exact hlater last hold reading (List.mem_cons_of_mem _ hreading)
          have hrest := ih (h.next hscore hfirst) hincreasing.of_cons hafter (by simpa using hindex)
          have hsplit : ((first :: readings).take (index + 1)).reverse ++ earlier =
              (readings.take index).reverse ++ first :: earlier := by simp
          rw [hsplit]
          exact hrest

end Ran

/-! ## Two variants -/

theorem length_serveCommands (score : Int → Int) (expires : Bool) (userID : String)
    (limit window : Int) (readings : List Int) (db : Db) :
    (serveCommands score expires userID limit window readings db).length = readings.length := by
  induction readings generalizing db with
  | nil => rfl
  | cons now readings ih => exact congrArg Nat.succ (ih _)

theorem serveCommands_eq_iff {first second : Int → Int} (hfirst : Monotone first)
    (hsecond : Monotone second) (firstExpires secondExpires : Bool) (userID : String)
    (limit window : Int) {readings : List Int} (hincreasing : readings.Pairwise (· < ·)) {db : Db}
    (hnew : db (userKey userID) = none) :
    serveCommands first firstExpires userID limit window readings db =
        serveCommands second secondExpires userID limit window readings db ↔
      ∀ index now, readings[index]? = some now →
        ((counted first firstExpires window now (readings.take index).reverse : Int) ≤ limit ↔
          (counted second secondExpires window now (readings.take index).reverse : Int) ≤
            limit) := by
  have hverdict (score : Int → Int) (hscore : Monotone score) (expires : Bool) {index : Nat}
      {now : Int} (hindex : readings[index]? = some now) :
      (serveCommands score expires userID limit window readings db)[index]? = some (now,
        .ok (decide ((counted score expires window now (readings.take index).reverse : Int) ≤
          limit))) := by
    have hran : Ran score expires userID window [] db := ran_new hnew
    rw [← List.append_nil (readings.take index).reverse]
    exact hran.verdicts hscore hincreasing (by simp) hindex
  constructor
  · intro heq index now hindex
    have hcall := congrArg (fun calls => calls[index]?) heq
    simp only [hverdict first hfirst _ hindex, hverdict second hsecond _ hindex] at hcall
    simpa using hcall
  · intro hcounts
    refine List.ext_getElem? fun index => ?_
    cases hindex : readings[index]? with
    | none =>
        have hlength := List.getElem?_eq_none_iff.mp hindex
        rw [List.getElem?_eq_none (by rwa [length_serveCommands]),
          List.getElem?_eq_none (by rwa [length_serveCommands])]
    | some now =>
        rw [hverdict first hfirst _ hindex, hverdict second hsecond _ hindex,
          decide_eq_decide.mpr (hcounts index now hindex)]

end NexPulse.RateLimit
