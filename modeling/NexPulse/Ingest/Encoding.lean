import Mathlib.Data.List.Sort
import Mathlib.Data.String.Basic
import NexPulse.Foundation.JsonText
import NexPulse.Foundation.ShortestDecimal
import NexPulse.Ingest.Event

/-!
# The decoder and the encoder of the gateway

`ShouldBindJSON` decodes the first value of the body with `encoding/json`: every
number becomes the nearest float64, a number out of range is an error, and of two
fields with the same key the later one counts.  `json.Marshal` writes the fields
sorted by key, and a float64 with the fewest digits that read back as it.
-/

namespace NexPulse.Ingest

open NexPulse.Foundation NexPulse.Foundation.JsonText

/-! ## Decoding -/

def maxNestingDepth : Nat := 10000

def goString (content : List Rune) : String := String.ofList (repair content)

/-- A map is kept sorted by key; a field that comes later in the object is there already. -/
def addField (key : String) (value : Json) : List (String × Json) → List (String × Json)
  | [] => [(key, value)]
  | (other, old) :: fields =>
      if key < other then (key, value) :: (other, old) :: fields
      else if key = other then (other, old) :: fields
      else (other, old) :: addField key value fields

mutual

def decode : Tree → Option Json
  | .null => some .null
  | .bool value => some (.bool value)
  | .number x => (Binary64.ofRat x).map .number
  | .string content => some (.string (goString content))
  | .array items => (decodeItems items).map .array
  | .object fields => (decodeFields fields).map .object

def decodeItems : List Tree → Option (List Json)
  | [] => some []
  | item :: items => do
      let value ← decode item
      let values ← decodeItems items
      return value :: values

def decodeFields : List (List Rune × Tree) → Option (List (String × Json))
  | [] => some []
  | (key, tree) :: fields => do
      let value ← decode tree
      let more ← decodeFields fields
      return addField (goString key) value more

end

def Sorted (fields : List (String × Json)) : Prop := fields.Pairwise fun first second =>
  first.1 < second.1

section Sorted

variable {key : String} {value : Json} {fields : List (String × Json)}

theorem mem_addField {field : String × Json} (h : field ∈ addField key value fields) :
    field = (key, value) ∨ field ∈ fields := by
  induction fields with
  | nil => exact .inl (List.mem_singleton.mp h)
  | cons first fields ih =>
      obtain ⟨other, old⟩ := first
      rw [addField] at h
      split at h
      · exact List.mem_cons.mp h
      · split at h
        · exact .inr h
        · rcases List.mem_cons.mp h with rfl | hmore
          · exact .inr List.mem_cons_self
          · exact (ih hmore).imp_right (List.mem_cons_of_mem _)

theorem sorted_addField (h : Sorted fields) : Sorted (addField key value fields) := by
  induction fields with
  | nil => exact List.pairwise_singleton _ _
  | cons first fields ih =>
      obtain ⟨other, old⟩ := first
      obtain ⟨hfirst, hrest⟩ := List.pairwise_cons.mp h
      rw [addField]
      split
      · next hlt =>
          refine List.pairwise_cons.mpr ⟨fun field hfield => ?_, h⟩
          rcases List.mem_cons.mp hfield with rfl | hmore
          · exact hlt
          · exact hlt.trans (hfirst field hmore)
      · split
        · exact h
        · next hnot hne =>
            refine List.pairwise_cons.mpr ⟨fun field hfield => ?_, ih hrest⟩
            rcases mem_addField hfield with rfl | hmore
            · exact lt_of_le_of_ne (not_lt.mp hnot) (Ne.symm hne)
            · exact hfirst field hmore

theorem sorted_decodeFields {trees : List (List Rune × Tree)}
    (h : decodeFields trees = some fields) : Sorted fields := by
  induction trees generalizing fields with
  | nil =>
      obtain rfl := Option.some.inj h
      exact List.Pairwise.nil
  | cons first trees ih =>
      obtain ⟨key, tree⟩ := first
      rw [decodeFields] at h
      obtain ⟨value, -, h⟩ := Option.bind_eq_some_iff.mp h
      obtain ⟨more, hmore, h⟩ := Option.bind_eq_some_iff.mp h
      obtain rfl := Option.some.inj h
      exact sorted_addField (ih hmore)

theorem keys_nodup_of_sorted (h : Sorted fields) : (fields.map Prod.fst).Nodup := by
  rw [List.Nodup, List.pairwise_map]
  exact List.Pairwise.imp (fun hlt => ne_of_lt hlt) h

end Sorted

def toEvent : Tree → Option Event
  | .null => some Event.empty
  | .object fields =>
      match h : decodeFields fields with
      | some more => some ⟨more, keys_nodup_of_sorted (sorted_decodeFields h)⟩
      | none => none
  | _ => none

/-- What follows the first value of the body is not read. -/
def bindJSON (body : List Rune) : Option Event := do
  let (tree, _) ← value maxNestingDepth (skipSpace body)
  toEvent tree

/-! ## Encoding -/

mutual

def encode : Json → Tree
  | .null => .null
  | .bool value => .bool value
  | .number value => .number value
  | .string text => .string (runes text.toList)
  | .array items => .array (encodeItems items)
  | .object fields => .object (((encodeFields fields).insertionSort fun first second =>
      first.1 ≤ second.1).map fun field => (runes field.1.toList, field.2))

def encodeItems : List Json → List Tree
  | [] => []
  | item :: items => encode item :: encodeItems items

def encodeFields : List (String × Json) → List (String × Tree)
  | [] => []
  | (key, value) :: fields => (key, encode value) :: encodeFields fields

end

def marshal (event : Event) : Option Text :=
  some (write Binary64.text (encode (.object event.fields)))

def unmarshal (text : Text) : Option Event := do
  toEvent (← parse maxNestingDepth (runes text))

def encodingJson : Codec (List Rune) Text where
  bindJSON := bindJSON
  marshal := marshal
  unmarshal := unmarshal

end NexPulse.Ingest
