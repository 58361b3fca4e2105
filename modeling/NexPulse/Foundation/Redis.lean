import NexPulse.Foundation.SortedSet
import Mathlib.Algebra.Ring.Int.Defs
import Mathlib.Logic.Function.Basic

/-!
# A keyspace of counters and sorted sets

The commands are those of a Redis server.  Each command works on one key, so
its meaning is a function on the cell of that key; a database applies it there
and leaves every other key alone.  A cell may carry a deadline, set by EXPIRE
on the server's clock in nanoseconds.  Executing a command does not look at
deadlines: `Db.purge` removes the cells whose deadline has passed, and a model
decides when that happens.
-/

namespace NexPulse.Foundation.Redis

open NexPulse.Foundation

def nanosecondsPerSecond : Int := 1000000000

inductive Value (Member : Type*) [LinearOrder Member] where
  | counter (count : Int)
  | sortedSet (set : SortedSet Member Int)

structure Cell (Member : Type*) [LinearOrder Member] where
  value : Value Member
  deadline : Option Int

inductive Op (Member : Type*) where
  | zRemRangeByScore (min max : Int)
  | zAdd (score : Int) (member : Member)
  | zCard
  | zIncrBy (increment : Int) (member : Member)
  | zRevRange (start stop : Int)
  | incr
  | expire (seconds : Int)
  deriving DecidableEq

inductive Error where
  | wrongType
  | connection
  deriving DecidableEq, Repr

inductive Reply (Member : Type*) where
  | int (value : Int)
  | ranked (entries : List (Member × Int))
  | error (error : Error)
  deriving DecidableEq

structure Command (Key Member : Type*) where
  key : Key
  op : Op Member
  deriving DecidableEq

variable {Key Member : Type*} [LinearOrder Member]

/-- An empty sorted set is not stored: its key is deleted, with its deadline. -/
def storeSet (set : SortedSet Member Int) (deadline : Option Int) : Option (Cell Member) :=
  if set.card = 0 then none else some ⟨.sortedSet set, deadline⟩

/-- Run an operation on the sorted set at a key, where a missing key is empty. -/
def onSortedSet (cell : Option (Cell Member))
    (f : SortedSet Member Int → Reply Member × SortedSet Member Int) :
    Reply Member × Option (Cell Member) :=
  match cell with
  | none => ((f ∅).1, storeSet (f ∅).2 none)
  | some ⟨.sortedSet set, deadline⟩ => ((f set).1, storeSet (f set).2 deadline)
  | some ⟨.counter count, deadline⟩ => (.error .wrongType, some ⟨.counter count, deadline⟩)

def Op.apply (clock : Int) : Op Member → Option (Cell Member) →
    Reply Member × Option (Cell Member)
  | .zRemRangeByScore min max, cell => onSortedSet cell fun set =>
      (.int (set.card - (set.removeRange min max).card), set.removeRange min max)
  | .zAdd score member, cell => onSortedSet cell fun set =>
      (.int (if (set.score? member).isSome then 0 else 1), set.insert member score)
  | .zCard, cell => onSortedSet cell fun set => (.int set.card, set)
  | .zIncrBy increment member, cell => onSortedSet cell fun set =>
      (.int ((set.score? member).getD 0 + increment), set.increment member increment)
  | .zRevRange start stop, cell => onSortedSet cell fun set =>
      (.ranked (set.revRange start stop), set)
  | .incr, none => (.int 1, some ⟨.counter 1, none⟩)
  | .incr, some ⟨.counter count, deadline⟩ =>
      (.int (count + 1), some ⟨.counter (count + 1), deadline⟩)
  | .incr, some ⟨.sortedSet set, deadline⟩ => (.error .wrongType, some ⟨.sortedSet set, deadline⟩)
  | .expire _, none => (.int 0, none)
  | .expire seconds, some cell =>
      if seconds ≤ 0 then (.int 1, none)
      else (.int 1, some { cell with
        deadline := some (clock + seconds * nanosecondsPerSecond) })

abbrev Db (Key Member : Type*) [LinearOrder Member] := Key → Option (Cell Member)

def Cell.live (clock : Int) (cell : Cell Member) : Bool :=
  match cell.deadline with
  | none => true
  | some deadline => clock < deadline

def Db.purge (clock : Int) (db : Db Key Member) : Db Key Member :=
  fun key => (db key).filter (Cell.live clock)

variable [DecidableEq Key]

def Command.exec (clock : Int) (command : Command Key Member) (db : Db Key Member) :
    Reply Member × Db Key Member :=
  let result := command.op.apply clock (db command.key)
  (result.1, Function.update db command.key result.2)

inductive Outcome where
  | replied
  -- Redis executes the command, but the reply does not reach the client.
  | replyLost
  | notExecuted
  deriving DecidableEq

def Command.attempt (clock : Int) (command : Command Key Member) (outcome : Outcome)
    (db : Db Key Member) : Reply Member × Db Key Member :=
  match outcome with
  | .replied => command.exec clock db
  | .replyLost => (.error .connection, (command.exec clock db).2)
  | .notExecuted => (.error .connection, db)

def execAll (clock : Int) : List (Command Key Member) → Db Key Member →
    List (Reply Member) × Db Key Member
  | [], db => ([], db)
  | command :: commands, db =>
      let first := command.exec clock db
      let rest := execAll clock commands first.2
      (first.1 :: rest.1, rest.2)

/-! ## One command and the keys it leaves alone -/

@[simp] theorem Command.exec_self (clock : Int) (command : Command Key Member)
    (db : Db Key Member) :
    (command.exec clock db).2 command.key = (command.op.apply clock (db command.key)).2 :=
  Function.update_self ..

theorem Command.exec_other {clock : Int} {command : Command Key Member}
    {db : Db Key Member} {key : Key} (h : key ≠ command.key) :
    (command.exec clock db).2 key = db key :=
  Function.update_of_ne h ..

theorem Command.attempt_other {clock : Int} {command : Command Key Member} {outcome : Outcome}
    {db : Db Key Member} {key : Key} (h : key ≠ command.key) :
    (command.attempt clock outcome db).2 key = db key := by
  cases outcome with
  | replied | replyLost => exact Command.exec_other h
  | notExecuted => rfl

theorem execAll_append (clock : Int) (first second : List (Command Key Member))
    (db : Db Key Member) :
    (execAll clock (first ++ second) db).2 =
      (execAll clock second (execAll clock first db).2).2 := by
  induction first generalizing db with
  | nil => rfl
  | cons command commands ih => exact ih _

/-! ## The sorted set at a key -/

def HoldsSet : Option (Cell Member) → Prop
  | some ⟨.counter _, _⟩ => False
  | _ => True

def setOf : Option (Cell Member) → SortedSet Member Int
  | some ⟨.sortedSet set, _⟩ => set
  | _ => ∅

@[simp] theorem holdsSet_none : HoldsSet (none : Option (Cell Member)) := trivial

@[simp] theorem setOf_none : setOf (none : Option (Cell Member)) = ∅ := rfl

@[simp] theorem setOf_storeSet (set : SortedSet Member Int) (deadline : Option Int) :
    setOf (storeSet set deadline) = set := by
  unfold storeSet
  split
  · exact (SortedSet.eq_empty_iff_card.mpr ‹_›).symm
  · rfl

theorem holdsSet_storeSet (set : SortedSet Member Int) (deadline : Option Int) :
    HoldsSet (storeSet set deadline) := by
  unfold storeSet
  split <;> trivial

theorem exists_eq_some_of_setOf {cell : Option (Cell Member)} (h : HoldsSet cell)
    (hsome : (setOf cell).card ≠ 0) :
    ∃ deadline, cell = some ⟨.sortedSet (setOf cell), deadline⟩ := by
  match cell, h with
  | none, _ => exact absurd rfl hsome
  | some ⟨.sortedSet _, deadline⟩, _ => exact ⟨deadline, rfl⟩

section OnSortedSet

variable {cell : Option (Cell Member)}
  {f : SortedSet Member Int → Reply Member × SortedSet Member Int}

theorem onSortedSet_reply (h : HoldsSet cell) : (onSortedSet cell f).1 = (f (setOf cell)).1 := by
  match cell, h with
  | none, _ => rfl
  | some ⟨.sortedSet _, _⟩, _ => rfl

theorem setOf_onSortedSet (h : HoldsSet cell) :
    setOf (onSortedSet cell f).2 = (f (setOf cell)).2 := by
  match cell, h with
  | none, _ => exact setOf_storeSet _ _
  | some ⟨.sortedSet _, _⟩, _ => exact setOf_storeSet _ _

theorem holdsSet_onSortedSet (h : HoldsSet cell) : HoldsSet (onSortedSet cell f).2 := by
  match cell, h with
  | none, _ => exact holdsSet_storeSet _ _
  | some ⟨.sortedSet _, _⟩, _ => exact holdsSet_storeSet _ _

theorem onSortedSet_storeSet (set : SortedSet Member Int)
    (f : SortedSet Member Int → Reply Member × SortedSet Member Int) :
    (onSortedSet (storeSet set none) f).2 = storeSet (f set).2 none := by
  unfold storeSet
  split
  · next hempty =>
      rw [SortedSet.eq_empty_iff_card.mpr hempty]
      rfl
  · rfl

end OnSortedSet

def Op.onSet : Op Member → SortedSet Member Int → SortedSet Member Int
  | .zRemRangeByScore min max, set => set.removeRange min max
  | .zAdd score member, set => set.insert member score
  | .zIncrBy increment member, set => set.increment member increment
  | .zCard, set | .zRevRange _ _, set | .incr, set => set
  | .expire seconds, set => if seconds ≤ 0 then ∅ else set

theorem Op.setOf_apply (clock : Int) (op : Op Member) {cell : Option (Cell Member)}
    (h : HoldsSet cell) (hop : op ≠ .incr) :
    setOf (op.apply clock cell).2 = op.onSet (setOf cell) := by
  cases op with
  | incr => contradiction
  | expire seconds =>
      match cell, h with
      | none, _ => simp [Op.apply, Op.onSet]
      | some ⟨.sortedSet set, deadline⟩, _ =>
          by_cases hseconds : seconds ≤ 0 <;> simp [Op.apply, Op.onSet, hseconds, setOf]
  | zRemRangeByScore | zAdd | zCard | zIncrBy | zRevRange => exact setOf_onSortedSet h

theorem Op.holdsSet_apply (clock : Int) (op : Op Member) {cell : Option (Cell Member)}
    (h : HoldsSet cell) (hop : op ≠ .incr) : HoldsSet (op.apply clock cell).2 := by
  cases op with
  | incr => contradiction
  | expire seconds =>
      match cell, h with
      | none, _ => trivial
      | some ⟨.sortedSet set, deadline⟩, _ =>
          by_cases hseconds : seconds ≤ 0 <;> simp [Op.apply, hseconds, HoldsSet]
  | zRemRangeByScore | zAdd | zCard | zIncrBy | zRevRange => exact holdsSet_onSortedSet h

theorem Op.apply_ne_error (clock : Int) (op : Op Member) {cell : Option (Cell Member)}
    (h : HoldsSet cell) (hop : op ≠ .incr) (error : Error) :
    (op.apply clock cell).1 ≠ .error error := by
  cases op with
  | incr => contradiction
  | expire seconds =>
      match cell with
      | none => simp [Op.apply]
      | some cell => by_cases hseconds : seconds ≤ 0 <;> simp [Op.apply, hseconds]
  | zRemRangeByScore | zAdd | zCard | zIncrBy | zRevRange =>
      rw [Op.apply, onSortedSet_reply h]
      simp

theorem Op.zCard_reply (clock : Int) {cell : Option (Cell Member)} (h : HoldsSet cell) :
    ((Op.zCard : Op Member).apply clock cell).1 = .int (setOf cell).card :=
  onSortedSet_reply h

/-! ## The counter at a key -/

def HoldsCounter : Option (Cell Member) → Prop
  | some ⟨.sortedSet _, _⟩ => False
  | _ => True

@[simp] theorem holdsCounter_none : HoldsCounter (none : Option (Cell Member)) := trivial

def counterOf : Option (Cell Member) → Int
  | some ⟨.counter count, _⟩ => count
  | _ => 0

theorem Op.counterOf_incr (clock : Int) {cell : Option (Cell Member)} (h : HoldsCounter cell) :
    HoldsCounter (Op.incr.apply clock cell).2 ∧
      counterOf (Op.incr.apply clock cell).2 = counterOf cell + 1 := by
  match cell, h with
  | none, _ => exact ⟨trivial, rfl⟩
  | some ⟨.counter count, deadline⟩, _ => exact ⟨trivial, rfl⟩

theorem Op.incr_ne_error (clock : Int) {cell : Option (Cell Member)} (h : HoldsCounter cell)
    (error : Error) : (Op.incr.apply clock cell).1 ≠ .error error := by
  match cell, h with
  | none, _ => simp [Op.apply]
  | some ⟨.counter count, deadline⟩, _ => simp [Op.apply]

/-! ## Commands on a key of another type -/

instance (cell : Option (Cell Member)) : Decidable (HoldsSet cell) :=
  match cell with
  | some ⟨.counter _, _⟩ => .isFalse id
  | some ⟨.sortedSet _, _⟩ | none => .isTrue trivial

instance (cell : Option (Cell Member)) : Decidable (HoldsCounter cell) :=
  match cell with
  | some ⟨.sortedSet _, _⟩ => .isFalse id
  | some ⟨.counter _, _⟩ | none => .isTrue trivial

def Op.Fits (cell : Option (Cell Member)) : Op Member → Prop
  | .expire _ => True
  | .incr => HoldsCounter cell
  | .zRemRangeByScore _ _ | .zAdd _ _ | .zCard | .zIncrBy _ _ | .zRevRange _ _ => HoldsSet cell

instance (cell : Option (Cell Member)) (op : Op Member) : Decidable (op.Fits cell) :=
  match op with
  | .expire _ => .isTrue trivial
  | .incr => inferInstanceAs (Decidable (HoldsCounter cell))
  | .zRemRangeByScore _ _ | .zAdd _ _ | .zCard | .zIncrBy _ _ | .zRevRange _ _ =>
      inferInstanceAs (Decidable (HoldsSet cell))

theorem Op.apply_of_not_fits (clock : Int) {op : Op Member} {cell : Option (Cell Member)}
    (h : ¬ op.Fits cell) : op.apply clock cell = (.error .wrongType, cell) := by
  cases op with
  | expire seconds => exact absurd trivial h
  | incr =>
      match cell with
      | none | some ⟨.counter _, _⟩ => exact absurd trivial h
      | some ⟨.sortedSet set, deadline⟩ => rfl
  | zRemRangeByScore | zAdd | zCard | zIncrBy | zRevRange =>
      match cell with
      | none | some ⟨.sortedSet _, _⟩ => exact absurd trivial h
      | some ⟨.counter count, deadline⟩ => rfl

def Command.Fits (db : Db Key Member) (command : Command Key Member) : Prop :=
  command.op.Fits (db command.key)

instance (db : Db Key Member) (command : Command Key Member) : Decidable (command.Fits db) :=
  inferInstanceAs (Decidable (command.op.Fits (db command.key)))

theorem Command.exec_of_not_fits (clock : Int) {command : Command Key Member}
    {db : Db Key Member} (h : ¬ command.Fits db) : (command.exec clock db).2 = db := by
  rw [Command.exec, Op.apply_of_not_fits clock h]
  exact Function.update_eq_self ..

/-- The entries whose commands Redis does not answer with WRONGTYPE. -/
def carriedOut {Tag : Type*} (clock : Int) :
    List (Tag × Command Key Member) → Db Key Member → List (Tag × Command Key Member)
  | [], _ => []
  | entry :: entries, db =>
      let rest := carriedOut clock entries (entry.2.exec clock db).2
      if entry.2.Fits db then entry :: rest else rest

section CarriedOut

variable {Tag : Type*} (clock : Int) (first second : List (Tag × Command Key Member))
  (db : Db Key Member)

theorem carriedOut_append :
    carriedOut clock (first ++ second) db =
      carriedOut clock first db ++
        carriedOut clock second (execAll clock (first.map Prod.snd) db).2 := by
  induction first generalizing db with
  | nil => rfl
  | cons entry entries ih =>
      rw [List.cons_append, carriedOut, carriedOut, ih, List.map_cons, execAll]
      split <;> rfl

theorem carriedOut_sublist : (carriedOut clock first db).Sublist first := by
  induction first generalizing db with
  | nil => exact .slnil
  | cons entry entries ih =>
      rw [carriedOut]
      split
      · exact (ih _).cons_cons entry
      · exact (ih _).cons entry

theorem carriedOut_append_eq_iff :
    carriedOut clock (first ++ second) db = first ++ second ↔
      carriedOut clock first db = first ∧
        carriedOut clock second (execAll clock (first.map Prod.snd) db).2 = second := by
  rw [carriedOut_append]
  refine ⟨fun h => List.append_inj h ?_, fun h => by rw [h.1, h.2]⟩
  have hlength := congrArg List.length h
  have hfirst := (carriedOut_sublist clock first db).length_le
  have hsecond := (carriedOut_sublist clock second
    (execAll clock (first.map Prod.snd) db).2).length_le
  rw [List.length_append, List.length_append] at hlength
  omega

theorem carriedOut_singleton (entry : Tag × Command Key Member) :
    carriedOut clock [entry] db = [entry] ↔ entry.2.Fits db := by
  simp [carriedOut]

end CarriedOut

/-! ## Keys without a deadline -/

def Persistent (cell : Option (Cell Member)) : Prop := ∀ stored ∈ cell, stored.deadline = none

theorem persistent_none : Persistent (none : Option (Cell Member)) := by simp [Persistent]

theorem persistent_onSortedSet {cell : Option (Cell Member)}
    {f : SortedSet Member Int → Reply Member × SortedSet Member Int} (h : Persistent cell) :
    Persistent (onSortedSet cell f).2 := by
  have hstore (set : SortedSet Member Int) : Persistent (storeSet set none) := by
    unfold storeSet
    split <;> simp [Persistent]
  match cell with
  | none => exact hstore _
  | some ⟨.sortedSet set, deadline⟩ =>
      obtain rfl : deadline = none := h _ rfl
      exact hstore _
  | some ⟨.counter count, deadline⟩ => exact h

theorem Op.persistent_apply (clock : Int) (op : Op Member) {cell : Option (Cell Member)}
    (h : Persistent cell) (hop : ∀ seconds, op ≠ .expire seconds) :
    Persistent (op.apply clock cell).2 := by
  cases op with
  | expire seconds => exact absurd rfl (hop seconds)
  | incr =>
      match cell with
      | none => simp [Op.apply, Persistent]
      | some ⟨.counter count, deadline⟩ =>
          obtain rfl : deadline = none := h _ rfl
          simp [Op.apply, Persistent]
      | some ⟨.sortedSet set, deadline⟩ => exact h
  | zRemRangeByScore | zAdd | zCard | zIncrBy | zRevRange => exact persistent_onSortedSet h

omit [DecidableEq Key] in
theorem purge_of_persistent {db : Db Key Member} {key : Key} (clock : Int)
    (h : Persistent (db key)) : db.purge clock key = db key := by
  unfold Db.purge
  cases hcell : db key with
  | none => rfl
  | some cell =>
      have hdeadline := h cell hcell
      simp [Option.filter, Cell.live, hdeadline]

/-! ## Pipelines of sorted-set commands on one key -/

def OnSetAt (key : Key) (commands : List (Command Key Member)) : Prop :=
  ∀ command ∈ commands, command.key = key ∧ command.op ≠ .incr

section OnSetAt

variable {clock : Int} {key : Key} {command : Command Key Member}
  {commands : List (Command Key Member)} {db : Db Key Member}

theorem Command.setOf_exec (clock : Int) (h : HoldsSet (db command.key))
    (hop : command.op ≠ .incr) :
    setOf ((command.exec clock db).2 command.key) =
      command.op.onSet (setOf (db command.key)) := by
  rw [Command.exec_self, Op.setOf_apply clock _ h hop]

theorem Command.holdsSet_exec (h : HoldsSet (db command.key)) (hop : command.op ≠ .incr) :
    HoldsSet ((command.exec clock db).2 command.key) := by
  rw [Command.exec_self]
  exact Op.holdsSet_apply clock _ h hop

theorem holdsSet_execAll (h : HoldsSet (db key)) (hcommands : OnSetAt key commands) :
    HoldsSet ((execAll clock commands db).2 key) := by
  induction commands generalizing db with
  | nil => exact h
  | cons command commands ih =>
      obtain ⟨⟨rfl, hop⟩, hrest⟩ := List.forall_mem_cons.mp hcommands
      exact ih (Command.holdsSet_exec h hop) hrest

theorem setOf_execAll (h : HoldsSet (db key)) (hcommands : OnSetAt key commands) :
    setOf ((execAll clock commands db).2 key) =
      commands.foldl (fun set command => command.op.onSet set) (setOf (db key)) := by
  induction commands generalizing db with
  | nil => rfl
  | cons command commands ih =>
      obtain ⟨⟨rfl, hop⟩, hrest⟩ := List.forall_mem_cons.mp hcommands
      rw [List.foldl_cons, ← Command.setOf_exec clock h hop]
      exact ih (Command.holdsSet_exec h hop) hrest

theorem persistent_execAll (h : Persistent (db key))
    (hcommands : ∀ command ∈ commands,
      command.key = key ∧ ∀ seconds, command.op ≠ .expire seconds) :
    Persistent ((execAll clock commands db).2 key) := by
  induction commands generalizing db with
  | nil => exact h
  | cons command commands ih =>
      obtain ⟨⟨rfl, hop⟩, hrest⟩ := List.forall_mem_cons.mp hcommands
      refine ih ?_ hrest
      rw [Command.exec_self]
      exact Op.persistent_apply clock _ h hop

theorem execAll_ne_error (h : HoldsSet (db key)) (hcommands : OnSetAt key commands)
    (error : Error) : .error error ∉ (execAll clock commands db).1 := by
  induction commands generalizing db with
  | nil => simp [execAll]
  | cons command commands ih =>
      obtain ⟨⟨rfl, hop⟩, hrest⟩ := List.forall_mem_cons.mp hcommands
      simp only [execAll, List.mem_cons, not_or]
      exact ⟨(Op.apply_ne_error clock _ h hop error).symm,
        ih (Command.holdsSet_exec h hop) hrest⟩

end OnSetAt

/-! ## Keys whose deadline has passed -/

theorem Cell.live_of_le {cell : Cell Member} {first second : Int} (h : first ≤ second)
    (hlive : cell.live second) : cell.live first := by
  unfold live at hlive ⊢
  split
  · rfl
  · next deadline hdeadline =>
      simp only [hdeadline, decide_eq_true_eq] at hlive ⊢
      exact h.trans_lt hlive

omit [DecidableEq Key] in
theorem purge_purge {first second : Int} (h : first ≤ second) (db : Db Key Member) :
    (db.purge first).purge second = db.purge second := by
  funext key
  unfold Db.purge
  cases db key with
  | none => rfl
  | some cell =>
      by_cases hlive : cell.live second
      · simp [Option.filter, hlive, Cell.live_of_le h hlive]
      · by_cases hfirst : cell.live first <;> simp [Option.filter, hlive, hfirst]

omit [DecidableEq Key] in
theorem holdsCounter_purge {db : Db Key Member} {key : Key} (clock : Int)
    (h : HoldsCounter (db key)) : HoldsCounter (db.purge clock key) := by
  unfold Db.purge
  cases hcell : db key with
  | none => trivial
  | some cell =>
      rw [hcell] at h
      cases hlive : cell.live clock <;> simp [Option.filter, hlive, h]

omit [DecidableEq Key] in
theorem holdsSet_purge {db : Db Key Member} {key : Key} (clock : Int)
    (h : HoldsSet (db key)) : HoldsSet (db.purge clock key) := by
  unfold Db.purge
  cases hcell : db key with
  | none => trivial
  | some cell =>
      rw [hcell] at h
      cases hlive : cell.live clock <;> simp [Option.filter, hlive, h]

end NexPulse.Foundation.Redis
