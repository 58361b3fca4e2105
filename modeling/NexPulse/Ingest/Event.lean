import Mathlib.Data.List.Nodup
import Mathlib.Data.Rat.Defs

/-!
# Events and their encodings

An event is what Go decodes a JSON object into, a `map[string]any`; JSON null
decodes into the nil map, which reads as the empty one.  The decoders and the
encoder are those of `encoding/json` and stay a parameter: a request body and
the value of a Kafka message are whatever they read and write.
-/

namespace NexPulse.Ingest

inductive Json where
  | null
  | bool (value : Bool)
  | number (value : Rat)
  | string (text : String)
  | array (items : List Json)
  | object (fields : List (String × Json))

structure Event where
  fields : List (String × Json)
  keys_nodup : (fields.map Prod.fst).Nodup

namespace Event

def empty : Event := ⟨[], List.nodup_nil⟩

/-- The type assertion `event[key].(string)`. -/
def string? (event : Event) (key : String) : Option String :=
  match event.fields.lookup key with
  | some (.string text) => some text
  | _ => none

end Event

structure Message (Value : Type*) where
  key : String
  value : Value

structure Codec (Body Value : Type*) where
  -- `ShouldBindJSON` into a fresh map.
  bindJSON : Body → Option Event
  marshal : Event → Option Value
  unmarshal : Value → Option Event

/-- Every event that was decoded can be encoded, and decodes to itself again. -/
def Codec.RoundTrip {Body Value : Type*} (codec : Codec Body Value) : Prop :=
  ∀ body event, codec.bindJSON body = some event →
    ∃ value, codec.marshal event = some value ∧ codec.unmarshal value = some event

/-! ## One event and its encodings -/

def loginBody : String := "\x7b\"user_id\": \"alice\", \"event_type\": \"login\"\x7d"

def loginValue : String := "\x7b\"event_type\":\"login\",\"user_id\":\"alice\"\x7d"

def loginEvent : Event :=
  ⟨[("event_type", .string "login"), ("user_id", .string "alice")], by decide⟩

def loginMessage : Message String := ⟨"alice", loginValue⟩

/-- What `encoding/json` does to the login event, and to texts that are not JSON. -/
def loginCodec : Codec String String where
  bindJSON body := if body = loginBody ∨ body = loginValue then some loginEvent else none
  marshal event :=
    match event.fields with
    | [("event_type", .string "login"), ("user_id", .string "alice")] => some loginValue
    | _ => none
  unmarshal value := if value = loginBody ∨ value = loginValue then some loginEvent else none

theorem loginCodec_roundTrip : loginCodec.RoundTrip := by
  intro body event hbind
  have hevent : loginEvent = event := by
    simp only [loginCodec] at hbind
    split at hbind
    · exact Option.some.inj hbind
    · contradiction
  subst hevent
  exact ⟨loginValue, rfl, by simp [loginCodec]⟩

end NexPulse.Ingest
