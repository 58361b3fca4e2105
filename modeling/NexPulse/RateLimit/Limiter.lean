import NexPulse.Foundation.Redis
import Mathlib

/-!
# The sliding-window limiter

`allowRequest` embeds `AllowRequest` of the gateway: a pipeline of four Redis
commands on the key of the user, and a verdict read off the third reply.  The
server clock that EXPIRE uses is the instant of the call.
-/

namespace NexPulse.RateLimit

open NexPulse.Foundation NexPulse.Foundation.Redis

abbrev Db := Redis.Db String String

abbrev Command := Redis.Command String String

instance : LawfulBEq Command := inferInstance

abbrev Reply := Redis.Reply String

def userKey (userID : String) : String := "rl:user:" ++ userID

/--
The seconds that go-redis sends with EXPIRE: the duration truncated, or 1 for
a positive duration below one second.
-/
def formatSec (window : Int) : Int :=
  if 0 < window ∧ window < nanosecondsPerSecond then 1
  else window.tdiv nanosecondsPerSecond

def pipeline (userID : String) (window now : Int) : List Command :=
  let key := userKey userID
  let windowStart := now - window
  [⟨key, .zRemRangeByScore 0 windowStart⟩,
   ⟨key, .zAdd now (toString now)⟩,
   ⟨key, .zCard⟩,
   ⟨key, .expire (formatSec window)⟩]

def firstError (replies : List Reply) : Option Error :=
  replies.findSome? fun
    | .error error => some error
    | _ => none

/-- `countCmd.Val()`: the third reply, or zero when it is not an integer. -/
def countVal (replies : List Reply) : Int :=
  match replies with
  | _ :: _ :: .int count :: _ => count
  | _ => 0

def verdict (limit : Int) (replies : List Reply) : Except Error Bool :=
  match firstError replies with
  | some error => .error error
  | none => .ok (decide (countVal replies ≤ limit))

def allowRequest (userID : String) (limit window now : Int) (db : Db) :
    Except Error Bool × Db :=
  let result := execAll now (pipeline userID window now) db
  (verdict limit result.1, result.2)

/--
Calls for one user, each run as a unit, with what happens to the database
before each call given by `before`.  The result pairs each clock reading with
its verdict.
-/
def serveWith (before : Int → Db → Db) (userID : String) (limit window : Int) :
    List Int → Db → List (Int × Except Error Bool)
  | [], _ => []
  | now :: readings, db =>
      let call := allowRequest userID limit window now (before now db)
      (now, call.1) :: serveWith before userID limit window readings call.2

/-- Calls whose commands run at the instant read; a key vanishes at its deadline. -/
def serve : String → Int → Int → List Int → Db → List (Int × Except Error Bool) :=
  serveWith Db.purge

/-- Calls in the order in which they reach Redis, with key expiry left aside. -/
def serveArrivals : String → Int → Int → List Int → Db → List (Int × Except Error Bool) :=
  serveWith fun _ db => db

def Admitted (start window : Int) (call : Int × Except Error Bool) : Prop :=
  start < call.1 ∧ call.1 ≤ start + window ∧ call.2 = .ok true

instance (start window : Int) (call : Int × Except Error Bool) :
    Decidable (Admitted start window call) :=
  inferInstanceAs (Decidable (_ ∧ _ ∧ _))

def admittedWithin (start window : Int) (calls : List (Int × Except Error Bool)) : Nat :=
  calls.countP fun call => Admitted start window call

/-! ## What one call does to the set of its user -/

def record (window now : Int) (set : SortedSet String Int) : SortedSet String Int :=
  (set.removeRange 0 (now - window)).insert (toString now) now

theorem formatSec_pos {window : Int} (h : 0 < window) : 0 < formatSec window := by
  unfold formatSec
  split
  · decide
  · next hlong =>
      have hsecond : (0 : Int) < nanosecondsPerSecond := by decide
      have hle : nanosecondsPerSecond ≤ window := by
        simp only [not_and, not_lt] at hlong
        exact hlong h
      rw [Int.tdiv_eq_ediv_of_nonneg h.le]
      have hone : 1 ≤ window / nanosecondsPerSecond := by
        rwa [Int.le_ediv_iff_mul_le hsecond, one_mul]
      exact hone

theorem toString_inj {first second : Int} : toString first = toString second ↔ first = second :=
  Int.repr_inj

theorem has_record {window now score : Int} {set : SortedSet String Int} {member : String} :
    (record window now set).Has member score ↔
      (member = toString now ∧ score = now) ∨
        (member ≠ toString now ∧ set.Has member score ∧
          ¬ (0 ≤ score ∧ score ≤ now - window)) := by
  rw [record, SortedSet.has_insert, SortedSet.has_removeRange]

theorem pipeline_onSetAt (userID : String) (window now : Int) :
    OnSetAt (userKey userID) (pipeline userID window now) := by
  intro command hcommand
  simp only [pipeline, List.mem_cons, List.not_mem_nil, or_false] at hcommand
  rcases hcommand with rfl | rfl | rfl | rfl <;> simp

section OneCall

variable {userID : String} {limit window now : Int} {db : Db}

theorem countVal_append {replies : List Reply} (h : 3 ≤ replies.length) (reply : Reply) :
    countVal (replies ++ [reply]) = countVal replies := by
  match replies, h with
  | _ :: _ :: third :: _, _ => cases third <;> rfl

theorem countVal_third {replies : List Reply} (h : replies.length = 2) (count : Int) :
    countVal (replies ++ [.int count]) = count := by
  obtain ⟨first, second, rfl⟩ := List.length_eq_two.mp h
  rfl

theorem firstError_eq_none {replies : List Reply} (h : ∀ error, .error error ∉ replies) :
    firstError replies = none := by
  refine List.findSome?_eq_none_iff.mpr fun reply hreply => ?_
  cases reply with
  | error error => exact absurd hreply (h error)
  | int | ranked => rfl

theorem setOf_allowRequest (hset : HoldsSet (db (userKey userID))) (hwindow : 0 < window) :
    setOf ((allowRequest userID limit window now db).2 (userKey userID)) =
      record window now (setOf (db (userKey userID))) := by
  have hexpire : ¬ formatSec window ≤ 0 := not_le.mpr (formatSec_pos hwindow)
  rw [allowRequest, setOf_execAll hset (pipeline_onSetAt userID window now)]
  simp [pipeline, Op.onSet, record, hexpire]

theorem holdsSet_allowRequest (hset : HoldsSet (db (userKey userID))) :
    HoldsSet ((allowRequest userID limit window now db).2 (userKey userID)) :=
  holdsSet_execAll hset (pipeline_onSetAt userID window now)

theorem countVal_execAll {added rest : List Command} (hset : HoldsSet (db (userKey userID)))
    (hadded : OnSetAt (userKey userID) added) (htwo : added.length = 2) :
    countVal (execAll now (added ++ ⟨userKey userID, .zCard⟩ :: rest) db).1 =
      (setOf ((execAll now added db).2 (userKey userID))).card := by
  have hholds : HoldsSet ((execAll now added db).2 (userKey userID)) :=
    holdsSet_execAll hset hadded
  have hreply := Op.zCard_reply now hholds
  obtain ⟨prune, insert, rfl⟩ := List.length_eq_two.mp htwo
  obtain ⟨pruned, inserted, more, hreplies⟩ : ∃ pruned inserted more,
      (execAll now ([prune, insert] ++ ⟨userKey userID, .zCard⟩ :: rest) db).1 =
        pruned :: inserted :: (Op.zCard.apply now
          ((execAll now [prune, insert] db).2 (userKey userID))).1 :: more :=
    ⟨_, _, _, rfl⟩
  rw [hreplies, hreply]
  rfl

theorem countVal_pipeline (hset : HoldsSet (db (userKey userID))) :
    countVal (execAll now (pipeline userID window now) db).1 =
      (record window now (setOf (db (userKey userID)))).card := by
  have hadded : OnSetAt (userKey userID) ((pipeline userID window now).take 2) :=
    fun command hcommand =>
      pipeline_onSetAt userID window now command (List.mem_of_mem_take hcommand)
  have hcount := @countVal_execAll userID now db _ [⟨userKey userID, .expire (formatSec window)⟩]
    hset hadded rfl
  rw [setOf_execAll hset hadded] at hcount
  exact hcount

theorem allowRequest_verdict (hset : HoldsSet (db (userKey userID))) :
    (allowRequest userID limit window now db).1 =
      .ok (decide (((record window now (setOf (db (userKey userID)))).card : Int) ≤ limit)) := by
  have herror : firstError (execAll now (pipeline userID window now) db).1 = none :=
    firstError_eq_none (execAll_ne_error hset (pipeline_onSetAt userID window now))
  simp only [allowRequest, verdict, herror]
  rw [countVal_pipeline hset]

end OneCall

end NexPulse.RateLimit
