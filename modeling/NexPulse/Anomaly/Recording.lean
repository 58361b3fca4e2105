import NexPulse.Anomaly.Detector
import NexPulse.Foundation.Transition
import NexPulse.Ingest.Transitions
import Mathlib.Algebra.BigOperators.Group.List.Basic

/-!
# From the gateway to the counter

A handler that has validated its request starts a goroutine with one post to the
anomaly service; nobody waits for it.  A post is sent and delivered late or
dropped.  A delivered post is marked with the number of ticks so far, which
names the tick that takes it.
-/

namespace NexPulse.Anomaly

open NexPulse.Foundation NexPulse.Foundation.Redis NexPulse.RateLimit NexPulse.Ingest

inductive Post where
  | unsent
  | inFlight
  | dropped
  | recorded (tick : Nat)
  deriving DecidableEq

structure Monitoring (Body : Type*) where
  gateway : Gateway Body
  db : Db
  posts : List Post
  detector : Detector
  taken : List Int

inductive Occurrence (Body : Type*) where
  | move (move : Move Body)
  | others (db : Db)
  | send (post : Nat)
  | drop (post : Nat)
  | deliver (post : Nat)
  | tick

variable {Body Value : Type*}

namespace Monitoring

def start (db : Db) : Monitoring Body := ⟨.init, db, [], .start, []⟩

def follow (state : Monitoring Body) (moved : Moved Body Value) : Monitoring Body :=
  { state with
    gateway := moved.gateway
    db := moved.db
    posts := state.posts ++ List.replicate (moved.gateway.pings - state.gateway.pings) .unsent }

def deliver (state : Monitoring Body) (post : Nat) : Monitoring Body :=
  { state with
    posts := state.posts.set post (.recorded state.taken.length)
    detector := (state.detector.record "POST").2 }

def tick (state : Monitoring Body) : Monitoring Body :=
  { state with
    detector := state.detector.tick.1
    taken := state.taken ++ [state.detector.rps] }

def pending (state : Monitoring Body) : Nat :=
  state.posts.countP fun post => post = .recorded state.taken.length

end Monitoring

def monitoring (codec : Codec Body Value) : System (Monitoring Body) (Occurrence Body) where
  step state
    | .move move => (state.gateway.move codec state.db move).map state.follow
    | .others db => some { state with db := db }
    | .send post =>
        if state.posts[post]? = some .unsent then
          some { state with posts := state.posts.set post .inFlight }
        else none
    | .drop post =>
        if state.posts[post]? = some .unsent ∨ state.posts[post]? = some .inFlight then
          some { state with posts := state.posts.set post .dropped }
        else none
    | .deliver post =>
        if state.posts[post]? = some .inFlight then some (state.deliver post) else none
    | .tick => some state.tick

/-- Fewer than 2^63 posts are delivered between two ticks. -/
def Counts (state : Monitoring Body) : Occurrence Body → Prop
  | .deliver _ => state.pending + 1 < 2 ^ 63
  | _ => True

instance (state : Monitoring Body) (occurrence : Occurrence Body) :
    Decidable (Counts state occurrence) := by
  unfold Counts
  split <;> infer_instance

def validated (handler : Handler Body) : Bool :=
  match handler.point with
  | .entered _ | .binding _ | .checking => false
  | .rejecting reason => reason ≠ .badRequest ∧ reason ≠ .missingUserId
  | .responding response | .leaving response | .finished response => response.status ≠ 400
  | _ => true

def aboutToPost (handler : Handler Body) : Bool :=
  match handler.point with
  | .pinging _ => true
  | _ => false

/-! ## The posts of the gateway -/

def posted : Account Body Value where
  read _ pings := pings
  share handler := validated handler && !aboutToPost handler
  entered _ _ := rfl
  goes pings h := by
    cases h with
    | write message written _ => cases written <;> simp [validated, aboutToPost]
    | reject reason =>
        cases reason <;> simp [validated, aboutToPost, Effect.only, Reason.response]
    | _ => simp [validated, aboutToPost, Effect.only, accepted, recovered]

theorem countP_validated (handlers : List (Handler Body)) :
    handlers.countP validated =
      handlers.countP (fun handler => validated handler && !aboutToPost handler) +
        handlers.countP aboutToPost := by
  induction handlers with
  | nil => rfl
  | cons handler handlers ih =>
      have hself : validated handler =
          ((validated handler && !aboutToPost handler) || aboutToPost handler) := by
        obtain ⟨event, point⟩ := handler
        cases point <;> simp [validated, aboutToPost]
      simp only [List.countP_cons]
      cases hvalid : validated handler <;> cases habout : aboutToPost handler <;>
        simp_all <;> omega

/-! ## The posts and the ticks that take them -/

def Post.outstanding : Post → Bool
  | .recorded _ => false
  | _ => true

theorem countP_outstanding (posts : List Post) :
    posts.countP Post.outstanding =
      posts.countP (· = .unsent) + posts.countP (· = .inFlight) + posts.countP (· = .dropped) := by
  induction posts with
  | nil => rfl
  | cons post posts ih =>
      simp only [List.countP_cons, ih]
      cases post <;> simp [Post.outstanding] <;> omega

structure Kept (state : Monitoring Body) : Prop where
  pings : state.gateway.pings = state.posts.length
  counter : state.detector.currentSecondEvents = BitVec.ofNat 64 state.pending
  few : state.pending < 2 ^ 63
  total : state.taken.sum + state.pending + state.posts.countP Post.outstanding =
    (state.posts.length : Int)
  past : ∀ (tick : Nat) rps, state.taken[tick]? = some rps →
    rps = state.posts.countP (· = .recorded tick)
  future : ∀ tick, state.taken.length < tick → state.posts.countP (· = .recorded tick) = 0

namespace Kept

variable {state : Monitoring Body} {id : Nat} {before after : Post}

theorem rps (h : Kept state) : state.detector.rps = state.pending := by
  have hnat : (BitVec.ofNat 64 state.pending).toNat = state.pending := by
    rw [BitVec.toNat_ofNat]
    exact Nat.mod_eq_of_lt (h.few.trans (by norm_num))
  rw [Detector.rps, h.counter, BitVec.toInt_eq_toNat_of_lt, hnat]
  have hfew := h.few
  omega

theorem of_marks (h : Kept state) {next : Monitoring Body}
    (hdetector : next.detector = state.detector) (htaken : next.taken = state.taken)
    (hmark : ∀ tick, next.posts.countP (· = .recorded tick) =
      state.posts.countP (· = .recorded tick))
    (hpings : next.gateway.pings = next.posts.length)
    (hposts : next.posts.countP Post.outstanding + state.posts.length =
      state.posts.countP Post.outstanding + next.posts.length) : Kept next := by
  have hpending : next.pending = state.pending := by
    rw [Monitoring.pending, htaken]
    exact hmark state.taken.length
  refine ⟨hpings, ?_, ?_, ?_, ?_, ?_⟩
  · rw [hdetector, hpending]
    exact h.counter
  · rw [hpending]
    exact h.few
  · have htotal := h.total
    rw [htaken, hpending]
    omega
  · intro tick rps hrps
    rw [hmark]
    exact h.past tick rps (htaken ▸ hrps)
  · intro tick hlater
    rw [hmark]
    exact h.future tick (htaken ▸ hlater)

theorem moved (h : Kept state) {codec : Codec Body Value} {mover : Option Nat}
    {moved : Moved Body Value} (hturn : Turns codec state.gateway state.db mover moved) :
    Kept (state.follow moved) := by
  have hpings : state.gateway.pings ≤ moved.gateway.pings := by
    cases hturn with
    | request => exact le_refl _
    | handler => exact Nat.le_add_right _ _
  have hold := h.pings
  refine h.of_marks rfl rfl (fun tick => ?_) ?_ ?_
  · simp [Monitoring.follow, List.countP_append, List.countP_replicate]
  · simp only [Monitoring.follow, List.length_append, List.length_replicate]
    omega
  · simp only [Monitoring.follow, List.countP_append, List.countP_replicate, List.length_append,
      List.length_replicate, Post.outstanding, if_true]
    omega

theorem replaced (h : Kept state) (hfound : state.posts[id]? = some before)
    (hbefore : before.outstanding) (hafter : after.outstanding) :
    Kept { state with posts := state.posts.set id after } := by
  refine h.of_marks rfl rfl (fun tick => ?_) ?_ ?_
  · have hcount := Pool.countP_set_add (fun post => decide (post = .recorded tick)) after hfound
    have hne : before ≠ .recorded tick := by
      rintro rfl
      simp [Post.outstanding] at hbefore
    have hne' : after ≠ .recorded tick := by
      rintro rfl
      simp [Post.outstanding] at hafter
    simpa [hne, hne'] using hcount
  · simpa using h.pings
  · have hcount := Pool.countP_set_add Post.outstanding after hfound
    simp only [hbefore, hafter, List.length_set] at hcount ⊢
    omega

theorem delivered (h : Kept state) (hfound : state.posts[id]? = some .inFlight)
    (hfew : state.pending + 1 < 2 ^ 63) : Kept (state.deliver id) := by
  have hmark (tick : Nat) : (state.deliver id).posts.countP (· = .recorded tick) =
      state.posts.countP (· = .recorded tick) + (if state.taken.length = tick then 1 else 0) := by
    have hcount := Pool.countP_set_add (fun post => decide (post = .recorded tick))
      (.recorded state.taken.length) hfound
    by_cases htick : state.taken.length = tick <;>
      simpa [Monitoring.deliver, htick] using hcount
  have hpending : (state.deliver id).pending = state.pending + 1 := by
    rw [Monitoring.pending, show (state.deliver id).taken = state.taken from rfl, hmark, if_pos rfl]
    rfl
  have houtstanding := Pool.countP_set_add Post.outstanding (.recorded state.taken.length) hfound
  refine ⟨?_, ?_, ?_, ?_, ?_, ?_⟩
  · simpa [Monitoring.deliver] using h.pings
  · rw [hpending, ← BitVec.ofNat_add_ofNat, ← h.counter]
    rfl
  · rw [hpending]
    exact hfew
  · rw [hpending]
    have htotal := h.total
    simp only [Post.outstanding, Bool.toNat_true, Bool.toNat_false] at houtstanding
    simp only [Monitoring.deliver, List.length_set]
    omega
  · intro tick rps htaken
    have hlt : tick < state.taken.length := (List.getElem?_eq_some_iff.mp htaken).1
    rw [hmark, if_neg hlt.ne']
    exact h.past tick rps htaken
  · intro tick hlater
    have hne : state.taken.length ≠ tick := Nat.ne_of_lt hlater
    rw [hmark, if_neg hne]
    exact h.future tick hlater

theorem ticked (h : Kept state) : Kept state.tick := by
  have hpending : state.tick.pending = 0 :=
    h.future _ (by simp [Monitoring.tick])
  refine ⟨h.pings, ?_, ?_, ?_, ?_, ?_⟩
  · rw [hpending]
    rfl
  · rw [hpending]
    norm_num
  · have htotal := h.total
    rw [hpending]
    simp only [Monitoring.tick, List.sum_append, List.sum_singleton, h.rps]
    omega
  · intro tick rps htaken
    simp only [Monitoring.tick, List.getElem?_append] at htaken
    split at htaken
    · exact h.past tick rps htaken
    · next hle =>
        obtain ⟨hlt, rfl⟩ := List.getElem?_eq_some_iff.mp htaken
        have hlast : tick = state.taken.length := by
          simp only [List.length_singleton] at hlt
          omega
        subst hlast
        simpa [Monitoring.tick, Monitoring.pending] using h.rps
  · intro tick hlater
    refine h.future tick ?_
    simp only [Monitoring.tick, List.length_append, List.length_singleton] at hlater
    omega

end Kept

theorem kept_of_run {codec : Codec Body Value} {db : Db} {labels : List (Occurrence Body)}
    {state : Monitoring Body} (h : (monitoring codec).run (.start db) labels = some state)
    (hfew : (monitoring codec).Along Counts (.start db) labels) :
    Kept state ∧ (posted : Account Body Value).Balanced state.gateway := by
  have hstart : Kept (Monitoring.start db : Monitoring Body) :=
    ⟨rfl, rfl, by simp [Monitoring.start, Monitoring.pending], rfl, by simp [Monitoring.start],
      by simp [Monitoring.start]⟩
  refine System.run_invariant_along _
    (I := fun state => Kept state ∧ (posted : Account Body Value).Balanced state.gateway)
    ⟨hstart, rfl⟩ ?_ h hfew
  intro state label next hcounts ⟨hkept, hposted⟩ hstep
  cases label with
  | move move =>
      obtain ⟨moved, hmove, rfl⟩ := Option.map_eq_some_iff.mp hstep
      have hturn := Gateway.turns_of_move hmove
      exact ⟨hkept.moved hturn, hposted.turn hturn⟩
  | others db =>
      obtain rfl := Option.some.inj hstep
      exact ⟨hkept.of_marks rfl rfl (fun _ => rfl) hkept.pings rfl, hposted⟩
  | send id =>
      obtain ⟨hfound, hnext⟩ := Option.ite_none_right_eq_some.mp hstep
      obtain rfl := Option.some.inj hnext
      exact ⟨hkept.replaced hfound rfl rfl, hposted⟩
  | drop id =>
      obtain ⟨hfound | hfound, hnext⟩ := Option.ite_none_right_eq_some.mp hstep <;>
        obtain rfl := Option.some.inj hnext
      · exact ⟨hkept.replaced hfound rfl rfl, hposted⟩
      · exact ⟨hkept.replaced hfound rfl rfl, hposted⟩
  | deliver id =>
      obtain ⟨hfound, hnext⟩ := Option.ite_none_right_eq_some.mp hstep
      obtain rfl := Option.some.inj hnext
      exact ⟨hkept.delivered hfound hcounts, hposted⟩
  | tick =>
      obtain rfl := Option.some.inj hstep
      exact ⟨hkept.ticked, hposted⟩

/--
The requests that have passed the check of their user_id are those whose post
was counted at a tick, is in the counter now, is on its way, was dropped, or is
about to be started; and each delivered post is in the count of one tick.
-/
theorem recorded_once (codec : Codec Body Value) (db : Db) (labels : List (Occurrence Body))
    (state : Monitoring Body) (hrun : (monitoring codec).run (.start db) labels = some state)
    (hfew : (monitoring codec).Along Counts (.start db) labels) :
    (state.gateway.handlers.countP validated =
        state.taken.sum + state.detector.rps +
          (state.gateway.handlers.countP aboutToPost + state.posts.countP (· = .unsent) +
            state.posts.countP (· = .inFlight)) +
          state.posts.countP (· = .dropped)) ∧
      (∀ (tick : Nat) rps, state.taken[tick]? = some rps →
        rps = state.posts.countP (· = .recorded tick)) ∧
      state.detector.rps = state.posts.countP (· = .recorded state.taken.length) ∧
      ∀ tick, .recorded tick ∈ state.posts → tick ≤ state.taken.length := by
  obtain ⟨hkept, hposted⟩ := kept_of_run hrun hfew
  refine ⟨?_, hkept.past, hkept.rps, ?_⟩
  · have htotal := hkept.total
    have hrps := hkept.rps
    have hpings := hkept.pings
    have hvalidated := countP_validated state.gateway.handlers
    have houtstanding := countP_outstanding state.posts
    have hbalanced : (state.gateway.pings : Int) = state.gateway.handlers.countP
      fun handler => validated handler && !aboutToPost handler := hposted
    omega
  · intro tick hmem
    by_contra hlater
    have hzero := hkept.future tick (by omega)
    rw [List.countP_eq_zero] at hzero
    simpa using hzero _ hmem

def latePost : List (Occurrence String) :=
  [.move (.request loginBody), .move (.request loginBody), .move (.compute 0), .move (.compute 0),
    .move (.compute 0), .move (.compute 0), .send 0, .tick, .move (.compute 1), .move (.compute 1),
    .move (.compute 1), .move (.compute 1), .deliver 0, .drop 1, .tick, .tick]

theorem recorded_once_late_post :
    ∃ state, (monitoring loginCodec).run (.start fun _ => none) latePost = some state ∧
      state.taken = [0, 1, 0] ∧ state.gateway.handlers.countP validated = 2 := by
  have hrun : (monitoring loginCodec).run (.start fun _ => none) latePost = some _ := rfl
  have hrecorded := recorded_once loginCodec _ latePost _ hrun (by decide)
  exact ⟨_, hrun, rfl, Int.ofNat_inj.mp hrecorded.1⟩

end NexPulse.Anomaly
