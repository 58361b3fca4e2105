import NexPulse.EndToEnd.Isolation

/-!
# Successive reads of the leaderboard

While the aggregator counts events and the limiter decides, the query service
reads the leaderboard.  The commands that Redis has executed determine each of
its answers: the ten highest of the scores that the commands before it have left.
So what the aggregator executes between two reads is the whole difference
between them, and no rank ever falls.
-/

namespace NexPulse.EndToEnd

open NexPulse.Foundation NexPulse.Foundation.Redis NexPulse.RateLimit NexPulse.Ingest
  NexPulse.Aggregate NexPulse.Query

def readCommand : Command := zRevRangeWithScores leaderboardKey 0 (10 - 1)

def raiseCommand (userID : String) : Command := ⟨leaderboardKey, .zIncrBy 1 userID⟩

def board (set : SortedSet String Int) (commands : List Command) : SortedSet String Int :=
  commands.foldl (fun set command =>
    if command.key = leaderboardKey then command.op.onSet set else set) set

inductive Touches : Command → Prop where
  | other (command : Command) (hkey : command.key ≠ leaderboardKey) : Touches command
  | raise (userID : String) : Touches (raiseCommand userID)
  | read : Touches readCommand

/-! ## The leaderboard after commands -/

section Board

variable {set : SortedSet String Int} {commands : List Command}

theorem board_append (set : SortedSet String Int) (first second : List Command) :
    board set (first ++ second) = board (board set first) second :=
  List.foldl_append

theorem board_cons (set : SortedSet String Int) (command : Command) (commands : List Command) :
    board set (command :: commands) =
      board (if command.key = leaderboardKey then command.op.onSet set else set) commands :=
  rfl

theorem score_board (htouches : ∀ command ∈ commands, Touches command) (userID : String) :
    ((board set commands).score? userID).getD 0 =
      (set.score? userID).getD 0 + commands.count (raiseCommand userID) := by
  induction commands generalizing set with
  | nil => simp [board]
  | cons command commands ih =>
      obtain ⟨hfirst, hrest⟩ := List.forall_mem_cons.mp htouches
      rw [board_cons, ih hrest, List.count_cons]
      cases hfirst with
      | other command hkey =>
          have hne : command ≠ raiseCommand userID := fun heq => hkey (heq ▸ rfl)
          simp [hkey, hne]
      | raise other =>
          have hself : (raiseCommand other).key = leaderboardKey := rfl
          have hop : (raiseCommand other).op.onSet set = set.increment other 1 := rfl
          rw [if_pos hself, hop, SortedSet.score?_increment]
          by_cases hother : userID = other
          · subst hother
            rw [if_pos rfl, beq_self_eq_true, if_pos rfl]
            omega
          · have hne : raiseCommand other ≠ raiseCommand userID := by
              simpa [raiseCommand] using Ne.symm hother
            simp [hother, hne]
      | read =>
          have hne : readCommand ≠ raiseCommand userID := by
            simp [readCommand, raiseCommand, zRevRangeWithScores]
          have hkeeps : readCommand.op.onSet set = set := rfl
          simp [hkeeps, hne]

theorem grows_board (htouches : ∀ command ∈ commands, Touches command) :
    set.Grows (board set commands) := by
  induction commands generalizing set with
  | nil => exact .refl set
  | cons command commands ih =>
      obtain ⟨hfirst, hrest⟩ := List.forall_mem_cons.mp htouches
      rw [board_cons]
      refine SortedSet.Grows.trans ?_ (ih hrest)
      cases hfirst with
      | other command hkey =>
          rw [if_neg hkey]
          exact .refl set
      | raise userID => exact set.grows_increment userID (by decide)
      | read => exact .refl set

end Board

/-! ## The answers in a run -/

section Run

variable {Call : Type*} [DecidableEq Call] {asked : Call → Asked} {state next : Shared Call}
  {act : Act Call} {initial : SortedSet String Int} {command : Command}

/-- Each read has been answered from the leaderboard after the commands before it. -/
structure Consistent (initial : SortedSet String Int) (state : Shared Call) : Prop where
  typed : HoldsSet (state.db leaderboardKey)
  persistent : Persistent (state.db leaderboardKey)
  touches : ∀ entry ∈ state.served, Touches entry.1
  board : setOf (state.db leaderboardKey) = board initial (state.served.map Prod.fst)
  reads : ∀ before reply later, state.served = before ++ (readCommand, reply) :: later →
    reply = .ranked ((EndToEnd.board initial (before.map Prod.fst)).revRange 0 (10 - 1))

theorem touches_of_step (h : (shared asked).step state act = some next) :
    (next.db = state.db ∧ next.served = state.served) ∨
      ∃ command clock, Touches command ∧ next.db = (state.serve command clock).db ∧
        next.served = (state.serve command clock).served := by
  cases act with
  | limiter call clock =>
      simp only [shared] at h
      split at h
      · next command hfound =>
          obtain ⟨-, hnext⟩ := Option.ite_none_right_eq_some.mp h
          obtain rfl := Option.some.inj hnext
          have hkey := (pipeline_onSetAt _ _ _ command (List.mem_of_getElem? hfound)).1
          refine .inr ⟨command, clock, .other command fun heq => ?_, rfl, rfl⟩
          exact userKey_not_aggregate _ (.inl (hkey.symm.trans heq))
      · contradiction
  | returns call =>
      obtain ⟨-, hnext⟩ := Option.ite_none_right_eq_some.mp h
      obtain rfl := Option.some.inj hnext
      exact .inl ⟨rfl, rfl⟩
  | update event command clock =>
      obtain ⟨⟨hmem, -⟩, hnext⟩ := Option.ite_none_right_eq_some.mp h
      obtain rfl := Option.some.inj hnext
      refine .inr ⟨command, clock, ?_, rfl, rfl⟩
      cases update_of_mem_updates hmem with
      | incr eventType => exact .other _ (leaderboardKey_ne_typeKey eventType).symm
      | zIncrBy userID => exact .raise userID
  | leaderboard clock =>
      obtain ⟨-, hnext⟩ := Option.ite_none_right_eq_some.mp h
      obtain rfl := Option.some.inj hnext
      exact .inr ⟨readCommand, clock, .read, rfl, rfl⟩

omit [DecidableEq Call] in
theorem Consistent.serve (h : Consistent initial state) (htouches : Touches command)
    (clock : Int) : Consistent initial (state.serve command clock) := by
  have hpurged := purge_of_persistent clock h.persistent
  have hset : command.key = leaderboardKey →
      command.op ≠ .incr ∧ ∀ seconds, command.op ≠ .expire seconds := by
    intro hkey
    cases htouches with
    | other command hother => exact absurd hkey hother
    | raise userID => simp [raiseCommand]
    | read => simp [readCommand, zRevRangeWithScores]
  have hcell : (state.serve command clock).db leaderboardKey =
      if command.key = leaderboardKey then
        (command.op.apply clock (state.db leaderboardKey)).2
      else state.db leaderboardKey := by
    split
    · next hkey =>
        rw [Shared.serve, Shared.result, ← hpurged, ← hkey]
        exact Command.exec_self clock command _
    · next hkey =>
        rw [← hpurged]
        exact Command.exec_other (Ne.symm hkey)
  refine ⟨?_, ?_, ?_, ?_, ?_⟩
  · rw [hcell]
    split
    · next hkey => exact Op.holdsSet_apply clock _ h.typed (hset hkey).1
    · exact h.typed
  · rw [hcell]
    split
    · next hkey => exact Op.persistent_apply clock _ h.persistent (hset hkey).2
    · exact h.persistent
  · intro entry hentry
    rcases List.mem_append.mp hentry with hold | hnew
    · exact h.touches entry hold
    · rw [List.mem_singleton.mp hnew]
      exact htouches
  · rw [hcell, Shared.serve, List.map_append, board_append, ← h.board]
    change _ = if _ then _ else _
    split
    · next hkey => exact Op.setOf_apply clock _ h.typed (hset hkey).1
    · rfl
  · intro before reply later hserved
    rcases List.eq_nil_or_concat later with rfl | ⟨others, last, rfl⟩
    · obtain ⟨rfl, hlast⟩ := List.append_inj' (hserved : state.served ++ [_] = before ++ [_]) rfl
      obtain ⟨rfl, rfl⟩ := Prod.mk.inj (List.singleton_inj.mp hlast)
      rw [← h.board, Shared.result, Command.exec, ← hpurged]
      exact onSortedSet_reply (hpurged ▸ h.typed)
    · rw [List.concat_eq_append, ← List.cons_append, ← List.append_assoc] at hserved
      obtain ⟨hold, -⟩ := List.append_inj' hserved rfl
      exact h.reads before reply others hold

theorem consistent_of_run {clock : Int} {db : Db} {labels : List (Act Call)}
    (htyped : HoldsSet (db leaderboardKey)) (hpersistent : Persistent (db leaderboardKey))
    (hrun : (shared asked).run (.start clock db) labels = some state) :
    Consistent (setOf (db leaderboardKey)) state := by
  have hstart : Consistent (setOf (db leaderboardKey)) (Shared.start clock db : Shared Call) :=
    ⟨htyped, hpersistent, by simp [Shared.start], rfl, by simp [Shared.start]⟩
  refine System.run_invariant _ hstart ?_ hrun
  intro state act next h hstep
  rcases touches_of_step hstep with ⟨hdb, hserved⟩ | ⟨command, clock, htouches, hdb, hserved⟩
  · refine ⟨?_, ?_, ?_, ?_, ?_⟩ <;> simp only [hdb, hserved]
    · exact h.typed
    · exact h.persistent
    · exact h.touches
    · exact h.board
    · exact h.reads
  · have hnext := h.serve htouches clock
    refine ⟨?_, ?_, ?_, ?_, ?_⟩ <;> simp only [hdb, hserved]
    · exact hnext.typed
    · exact hnext.persistent
    · exact hnext.touches
    · exact hnext.board
    · exact hnext.reads

/-- What two answers have to do with each other, `between` being the commands between them. -/
structure Raised (initial : SortedSet String Int) (before between : List Command)
    (first second : List (String × Int)) : Prop where
  top : SortedSet.TopRanking (board initial before).Has (board initial before).card (· < ·) 10 first
  score : ∀ userID score, (userID, score) ∈ first →
    score = (initial.score? userID).getD 0 + before.count (raiseCommand userID)
  gained : ∀ userID score later, (userID, score) ∈ first → (userID, later) ∈ second →
    later = score + between.count (raiseCommand userID)
  length : first.length ≤ second.length
  ranks : ∀ (rank : Nat) entry raised, first[rank]? = some entry → second[rank]? = some raised →
    entry.2 ≤ raised.2

theorem raised_of_touches (initial : SortedSet String Int) {before between : List Command}
    (hbefore : ∀ command ∈ before, Touches command)
    (hbetween : ∀ command ∈ between, Touches command) :
    Raised initial before between ((board initial before).revRange 0 (10 - 1))
      ((board initial (before ++ between)).revRange 0 (10 - 1)) := by
  have hten : (0 : Int) < 10 := by decide
  have hfirst := (board initial before).topRanking_revRange hten
  have hsecond := (board initial (before ++ between)).topRanking_revRange hten
  have hgrows : (board initial before).Grows (board initial (before ++ between)) := by
    rw [board_append]
    exact grows_board hbetween
  have hscore {commands : List Command} (h : ∀ command ∈ commands, Touches command)
      {userID : String} {score : Int} (hhas : (board initial commands).Has userID score) :
      score = (initial.score? userID).getD 0 + commands.count (raiseCommand userID) := by
    rw [← score_board h, SortedSet.score?_eq_some_iff.mpr hhas, Option.getD_some]
  refine ⟨hfirst, ?_, ?_, ?_, ?_⟩
  · intro userID score hmem
    exact hscore hbefore (hfirst.has _ hmem)
  · intro userID score later hmem hlater
    have hold : score = (initial.score? userID).getD 0 + before.count (raiseCommand userID) :=
      hscore hbefore (hfirst.has _ hmem)
    have hnew : later = (initial.score? userID).getD 0 +
        (before ++ between).count (raiseCommand userID) :=
      hscore (List.forall_mem_append.mpr ⟨hbefore, hbetween⟩) (hsecond.has _ hlater)
    rw [List.count_append] at hnew
    omega
  · rw [hfirst.length_eq, hsecond.length_eq]
    have hcard := hgrows.card_le
    omega
  · exact fun rank entry raised hentry hraised => hgrows.rank_le hfirst hsecond hentry hraised

/--
In every run of the services on one Redis, of any two answers to /leaderboard the
earlier one has the ten highest scores, each the count of the user's events executed
before it; from the earlier to the later one a user in both has gained exactly the
events executed between them, the answer has not become shorter, and the score at
each rank is at least what it was.
-/
theorem successive_reads {clock : Int} {db : Db} {labels : List (Act Call)}
    (htyped : HoldsSet (db leaderboardKey)) (hpersistent : Persistent (db leaderboardKey))
    (hrun : (shared asked).run (.start clock db) labels = some state)
    {before between later : List (Command × Reply)} {first second : Reply}
    (hserved : state.served =
      before ++ (readCommand, first) :: (between ++ (readCommand, second) :: later)) :
    ∃ ranking following, first = .ranked ranking ∧ second = .ranked following ∧
      Raised (setOf (db leaderboardKey)) (before.map Prod.fst) (between.map Prod.fst) ranking
        following := by
  have hconsistent := consistent_of_run htyped hpersistent hrun
  have htouches : ∀ command ∈ before.map Prod.fst ++ between.map Prod.fst, Touches command := by
    intro command hcommand
    rw [← List.map_append, List.mem_map] at hcommand
    obtain ⟨entry, hentry, rfl⟩ := hcommand
    refine hconsistent.touches entry ?_
    rw [hserved]
    simp only [List.mem_append, List.mem_cons] at hentry ⊢
    tauto
  obtain ⟨hbefore, hbetween⟩ := List.forall_mem_append.mp htouches
  have hsame : board (setOf (db leaderboardKey))
      ((before ++ (readCommand, first) :: between).map Prod.fst) =
        board (setOf (db leaderboardKey)) (before.map Prod.fst ++ between.map Prod.fst) := by
    rw [List.map_append, List.map_cons, board_append, board_append, board_cons]
    rfl
  have hfirst := hconsistent.reads before first _ hserved
  have hsecond := hconsistent.reads (before ++ (readCommand, first) :: between) second later
    (by rw [hserved, List.append_assoc, List.cons_append])
  rw [hsame] at hsecond
  exact ⟨_, _, hfirst, hsecond, raised_of_touches _ hbefore hbetween⟩

end Run

def readTwice : List (Act Bool) :=
  [.update loginEvent (raiseCommand "alice") 5, .leaderboard 6, .limiter true 6,
    .update loginEvent (raiseCommand "alice") 7, .leaderboard 8]

theorem successive_reads_two_logins :
    ∃ between, Raised ∅ [raiseCommand "alice"] between [("alice", 1)] [("alice", 2)] := by
  have hrun : (shared twoUsers).run (.start 0 fun _ => none) readTwice = some _ := rfl
  obtain ⟨ranking, following, hfirst, hsecond, hraised⟩ :=
    @successive_reads Bool _ twoUsers _ 0 (fun _ => none) readTwice trivial persistent_none hrun
      [_] [_, _] [] _ _ rfl
  obtain rfl : [("alice", 1)] = ranking := Reply.ranked.inj hfirst
  obtain rfl : [("alice", 2)] = following := Reply.ranked.inj hsecond
  exact ⟨_, hraised⟩

end NexPulse.EndToEnd
