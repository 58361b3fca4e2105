import NexPulse.Aggregate.Aggregator
import NexPulse.Foundation.JsonLayout
import NexPulse.Foundation.WholeNumber
import NexPulse.Ingest.Decision
import NexPulse.Ingest.RoundTrip

/-!
# The events of the simulator

At each tick a worker posts an event with a random user and type and the time in
milliseconds.  Its `json.Marshal` writes the time as the int64 that it is; the
gateway decodes it to a float64 and writes that again, which gives the same text
as long as the time has at most 53 bits.
-/

namespace NexPulse.Simulator

open NexPulse.Foundation NexPulse.Foundation.JsonText NexPulse.Foundation.Numeral
open NexPulse.Foundation.Redis NexPulse.RateLimit NexPulse.Ingest NexPulse.Aggregate

def types : List String := ["click", "view", "purchase", "login"]

/-- `draw` is `rand.Intn(len(types))`. -/
def randomEventType (draw : Fin types.length) : String := types.get draw

structure Draw where
  -- `rand.Intn(10000)`
  user : Fin 10000
  eventType : Fin types.length
  unixMilli : Int64

namespace Draw

def userID (draw : Draw) : String := String.ofList ("user_".toList ++ decimalVerb draw.user)

def event (draw : Draw) : List (String × Tree) :=
  [("user_id", .string (runes draw.userID.toList)),
    ("event_type", .string (runes (randomEventType draw.eventType).toList)),
    ("timestamp", .number draw.unixMilli.toInt)]

/-- `json.Marshal` sorts the keys; the only number of the map is an integer. -/
def payload (draw : Draw) : Text :=
  let sorted := draw.event.insertionSort fun first second => first.1 ≤ second.1
  JsonText.write (fun x => decimalVerb x.num)
    (.object (sorted.map fun field => (runes field.1.toList, field.2)))

def decoded (draw : Draw) : Event :=
  ⟨[("event_type", .string (randomEventType draw.eventType)),
    ("timestamp", .number draw.unixMilli.toInt), ("user_id", .string draw.userID)], by simp⟩

end Draw

section Marshal

variable {draw : Draw}

theorem sorted_decoded (draw : Draw) : Sorted draw.decoded.fields := by
  have hkeys : ["event_type", "timestamp", "user_id"].Pairwise (· < ·) := by decide +kernel
  exact List.pairwise_map.mp (hkeys : (draw.decoded.fields.map Prod.fst).Pairwise (· < ·))

theorem sorted_event (draw : Draw) :
    draw.event.insertionSort (fun first second => first.1 ≤ second.1) =
      [("event_type", .string (runes (randomEventType draw.eventType).toList)),
        ("timestamp", .number draw.unixMilli.toInt),
        ("user_id", .string (runes draw.userID.toList))] := by
  have htype : "event_type" ≤ "timestamp" := by decide +kernel
  have huser : ¬ "user_id" ≤ "event_type" := by decide +kernel
  have htime : ¬ "user_id" ≤ "timestamp" := by decide +kernel
  simp only [Draw.event, List.insertionSort_cons, List.insertionSort_nil, List.orderedInsert_nil,
    List.orderedInsert_cons, htype, huser, htime, if_true, if_false]

theorem bindJSON_of_parse {body : List Rune} {tree : Tree}
    (h : parse maxNestingDepth body = some tree) : bindJSON body = toEvent tree := by
  rw [parse] at h
  obtain ⟨⟨first, rest⟩, hread, hfirst⟩ := Option.bind_eq_some_iff.mp h
  obtain ⟨-, hsame⟩ := Option.ite_none_right_eq_some.mp hfirst
  obtain rfl := Option.some.inj hsame
  rw [bindJSON, hread]
  rfl

theorem payload_eq (h : draw.unixMilli.toInt.natAbs < 2 ^ 53) :
    draw.payload = JsonText.write Binary64.text (encode (.object draw.decoded.fields)) := by
  rw [encode_object (sorted_decoded draw), Draw.payload, sorted_event]
  simp only [Draw.decoded, List.map_cons, List.map_nil, JsonText.write, writeFields, encode,
    Binary64.text_whole h, Rat.num_intCast]

theorem canonical_decoded (h : draw.unixMilli.toInt.natAbs < 2 ^ 53) :
    Canonical maxNestingDepth (.object draw.decoded.fields) := by
  refine .object _ _ (sorted_decoded draw) ?_
  simp only [Draw.decoded, List.forall_mem_cons]
  refine ⟨.string _ _, .number _ _ ?_, .string _ _, fun _ hnone => absurd hnone List.not_mem_nil⟩
  exact Binary64.isFloat_of_ofRat (Binary64.ofRat_whole h)

theorem payload_passes (h : draw.unixMilli.toInt.natAbs < 2 ^ 53) :
    bindJSON (runes draw.payload) = some draw.decoded ∧
      marshal draw.decoded = some draw.payload ∧ unmarshal draw.payload = some draw.decoded := by
  have hcanonical := canonical_decoded h
  have hparse := parse_write hcanonical
  have hevent := toEvent_of_decode (decode_encode hcanonical)
  rw [← payload_eq h] at hparse
  have hbind := bindJSON_of_parse hparse
  rw [hevent] at hbind
  have hmarshal : marshal draw.decoded = some draw.payload := by rw [marshal, ← payload_eq h]
  exact ⟨hbind, hmarshal, unmarshal_marshal hbind hmarshal⟩

theorem updatesOf_payload (h : draw.unixMilli.toInt.natAbs < 2 ^ 53) (key : String) :
    updatesOf encodingJson ⟨key, draw.payload⟩ =
      [⟨typeKey (randomEventType draw.eventType), .incr⟩,
        ⟨leaderboardKey, .zIncrBy 1 draw.userID⟩] := by
  have hdecoded : encodingJson.unmarshal draw.payload = some draw.decoded :=
    (payload_passes h).2.2
  rw [updatesOf, hdecoded]
  rfl

theorem Draw.userID_ne_empty (draw : Draw) : draw.userID ≠ "" := by
  unfold Draw.userID
  rw [← String.ofList_nil, Ne, String.ofList_inj]
  exact List.append_ne_nil_of_left_ne_nil (by decide) _

end Marshal

/-! ## The gateway -/

section Run

variable {db : Db} {labels : List (Happening (List Rune))} {state : Ledger (List Rune) Text}

/-- A posted event is only turned down by the limiter or the broker, and goes on as it was. -/
theorem simulated_event_relayed (draw : Draw) (htime : draw.unixMilli.toInt.natAbs < 2 ^ 53)
    (hrun : (ledger encodingJson).run (Ledger.start db) labels = some state) {id : Nat}
    (hreceived : state.received id = some (runes draw.payload)) {handler : Handler (List Rune)}
    (hfound : state.gateway.handlers[id]? = some handler) {response : Response}
    (hpoint : handler.point = .finished response) :
    ∃ answer written, state.answers id = [answer] ∧
      (answer = .ok false → response = Reason.rateLimit.response ∧ state.handed id = []) ∧
      (answer ≠ .ok false →
        response = (if written then accepted else Reason.kafkaError.response) ∧
        (state.handed id).map Handed.outcome = [(⟨draw.userID, draw.payload⟩, written)] ∧
        updatesOf encodingJson ⟨draw.userID, draw.payload⟩ =
          [⟨typeKey (randomEventType draw.eventType), .incr⟩,
            ⟨leaderboardKey, .zIncrBy 1 draw.userID⟩]) := by
  obtain ⟨hbind, hmarshal, -⟩ := payload_passes htime
  have hencoded : encodingJson.marshal draw.decoded = some draw.payload := hmarshal
  have huser : draw.decoded.string? "user_id" = some draw.userID := rfl
  have hnonempty := draw.userID_ne_empty
  obtain ⟨body, answer, written, hbody, hreturned⟩ := refines_handleIngest hrun hfound hpoint
  obtain rfl := Option.some.inj (hreceived.symm.trans hbody)
  by_cases hanswer : answer = .ok false
  · subst hanswer
    have hcall := hreturned
    rw [handleIngest_limited hbind ⟨_, huser, hnonempty⟩] at hcall
    exact ⟨.ok false, written, hcall.answers, fun _ => ⟨hcall.response,
      List.map_eq_nil_iff.mp hcall.handed⟩, fun hallowed => absurd rfl hallowed⟩
  · have hcall := hreturned
    rw [handleIngest_through hbind huser hnonempty hanswer, hencoded] at hcall
    refine ⟨answer, written, hcall.answers, fun hdenied => absurd hdenied hanswer, fun _ =>
      ⟨?_, hcall.handed, updatesOf_payload htime draw.userID⟩⟩
    rw [hcall.response]
    cases written <;> rfl

theorem accepted_of_draw (draw : Draw) (htime : draw.unixMilli.toInt.natAbs < 2 ^ 53) :
    ∃ state, (ledger encodingJson).run (Ledger.start fun _ => none)
        (acceptedRun (runes draw.payload)) = some state ∧
      state.gateway.handlers[0]? = some ⟨draw.decoded, .finished accepted⟩ ∧
      state.received 0 = some (runes draw.payload) := by
  obtain ⟨hbind, hmarshal, -⟩ := payload_passes htime
  have hbound : encodingJson.bindJSON (runes draw.payload) = some draw.decoded := hbind
  have hencoded : encodingJson.marshal draw.decoded = some draw.payload := hmarshal
  have huser : draw.decoded.string? "user_id" = some draw.userID := rfl
  obtain ⟨state, hrun, hfinished, hreceived, -⟩ :=
    finished_of_acceptedRun hbound huser draw.userID_ne_empty hencoded
  exact ⟨state, hrun, hfinished, hreceived⟩

def loginDraw : Draw := ⟨7, ⟨3, by decide⟩, 1700000000000⟩

theorem simulated_event_relayed_login :
    ∃ state, (ledger encodingJson).run (Ledger.start fun _ => none)
        (acceptedRun (runes loginDraw.payload)) = some state ∧
      (state.handed 0).map Handed.outcome = [(⟨loginDraw.userID, loginDraw.payload⟩, true)] := by
  have htime : loginDraw.unixMilli.toInt.natAbs < 2 ^ 53 := by decide
  obtain ⟨state, hrun, hfinished, hreceived⟩ := accepted_of_draw loginDraw htime
  obtain ⟨answer, written, -, hdenied, hallowed⟩ :=
    simulated_event_relayed loginDraw htime hrun hreceived hfinished rfl
  have hanswer : answer ≠ .ok false :=
    fun hanswer => absurd (hdenied hanswer).1 (by decide)
  obtain ⟨hresponse, hhanded, -⟩ := hallowed hanswer
  have hwritten : written = true := by
    cases written with
    | true => rfl
    | false => exact absurd hresponse (by decide)
  subst hwritten
  exact ⟨state, hrun, hhanded⟩

end Run

end NexPulse.Simulator
