import NexPulse.Ingest.Encoding

/-!
# Decoded values are encoded without loss

What the decoder yields is canonical: its numbers are float64 values and its maps
are sorted by key.  A canonical value is encoded to a well-formed text that is
decoded to the value again, so the codec of the services is a round trip.
-/

namespace NexPulse.Ingest

open NexPulse.Foundation NexPulse.Foundation.JsonText NexPulse.Foundation.Numeral

def printed (x : Rat) : Rat := (Binary64.shortest x).value

inductive Canonical : Nat → Json → Prop
  | null (depth : Nat) : Canonical depth .null
  | bool (depth : Nat) (value : Bool) : Canonical depth (.bool value)
  | number (depth : Nat) (x : Rat) (float : Binary64.IsFloat x) : Canonical depth (.number x)
  | string (depth : Nat) (text : String) : Canonical depth (.string text)
  | array (depth : Nat) (items : List Json) (canonical : ∀ item ∈ items, Canonical depth item) :
      Canonical (depth + 1) (.array items)
  | object (depth : Nat) (fields : List (String × Json)) (sorted : Sorted fields)
      (canonical : ∀ field ∈ fields, Canonical depth field.2) :
      Canonical (depth + 1) (.object fields)

section Canonical

variable {depth : Nat} {value : Json} {values : List Json} {fields : List (String × Json)}

/-! ## What is decoded -/

theorem decodeItems_forall₂ {items : List Tree} (h : decodeItems items = some values) :
    List.Forall₂ (fun item value => decode item = some value) items values := by
  induction items generalizing values with
  | nil =>
      obtain rfl := Option.some.inj h
      exact .nil
  | cons item items ih =>
      rw [decodeItems] at h
      obtain ⟨value, hvalue, h⟩ := Option.bind_eq_some_iff.mp h
      obtain ⟨more, hmore, h⟩ := Option.bind_eq_some_iff.mp h
      obtain rfl := Option.some.inj h
      exact .cons hvalue (ih hmore)

theorem mem_decodeFields {trees : List (List Rune × Tree)} (h : decodeFields trees = some fields)
    {field : String × Json} (hfield : field ∈ fields) :
    ∃ tree ∈ trees, decode tree.2 = some field.2 := by
  induction trees generalizing fields with
  | nil =>
      obtain rfl := Option.some.inj h
      contradiction
  | cons first trees ih =>
      obtain ⟨key, tree⟩ := first
      rw [decodeFields] at h
      obtain ⟨value, hvalue, h⟩ := Option.bind_eq_some_iff.mp h
      obtain ⟨more, hmore, h⟩ := Option.bind_eq_some_iff.mp h
      obtain rfl := Option.some.inj h
      rcases mem_addField hfield with rfl | hold
      · exact ⟨_, List.mem_cons_self, hvalue⟩
      · obtain ⟨other, hother, hdecode⟩ := ih hmore hold
        exact ⟨other, List.mem_cons_of_mem _ hother, hdecode⟩

theorem canonical_of_decode (tree : Tree) (hwithin : tree.Within depth)
    (h : decode tree = some value) : Canonical depth value := by
  induction tree using Tree.induction generalizing depth value with
  | null =>
      obtain rfl := Option.some.inj h
      exact .null depth
  | bool flag =>
      obtain rfl := Option.some.inj h
      exact .bool depth flag
  | number x =>
      rw [decode, Option.map_eq_some_iff] at h
      obtain ⟨float, hfloat, rfl⟩ := h
      exact .number depth float (Binary64.isFloat_of_ofRat hfloat)
  | string content =>
      obtain rfl := Option.some.inj h
      exact .string depth _
  | array items ih =>
      obtain ⟨values, hvalues, rfl⟩ := Option.map_eq_some_iff.mp h
      cases depth with
      | zero => exact hwithin.elim
      | succ depth =>
          refine .array depth values fun value hvalue => ?_
          obtain ⟨item, hitem, hdecode⟩ :=
            Tree.exists_of_mem_right (decodeItems_forall₂ hvalues) hvalue
          exact ih item hitem (hwithin item hitem) hdecode
  | object trees ih =>
      obtain ⟨fields, hfields, rfl⟩ := Option.map_eq_some_iff.mp h
      cases depth with
      | zero => exact hwithin.elim
      | succ depth =>
          refine .object depth fields (sorted_decodeFields hfields) fun field hfield => ?_
          obtain ⟨tree, htree, hdecode⟩ := mem_decodeFields hfields hfield
          exact ih tree htree (hwithin tree htree) hdecode

/-! ## What is encoded -/

theorem encodeItems_eq (values : List Json) : encodeItems values = values.map encode := by
  induction values with
  | nil => rfl
  | cons value values ih => rw [encodeItems, ih, List.map_cons]

theorem encodeFields_eq (fields : List (String × Json)) :
    encodeFields fields = fields.map fun field => (field.1, encode field.2) := by
  induction fields with
  | nil => rfl
  | cons field fields ih => rw [encodeFields, ih, List.map_cons]

theorem encode_object (h : Sorted fields) :
    encode (.object fields) =
      .object (fields.map fun field => (runes field.1.toList, encode field.2)) := by
  have hsorted : (encodeFields fields).Pairwise fun first second => first.1 ≤ second.1 := by
    rw [encodeFields_eq, List.pairwise_map]
    exact List.Pairwise.imp (fun hlt => le_of_lt hlt) h
  rw [encode, hsorted.insertionSort_eq, encodeFields_eq, List.map_map]
  rfl

theorem none_notMem_runes (text : Text) : none ∉ runes text := by
  simp [runes]

theorem runes_inj {first second : Text} (h : runes first = runes second) : first = second :=
  List.map_injective_iff.mpr (Option.some_injective _) h

theorem wellFormed_encode (h : Canonical depth value) : (encode value).WellFormed := by
  induction h with
  | null | bool | number =>
      exact (Tree.every_scalar (by trivial)).mpr ⟨by simp [encode], by simp [encode]⟩
  | string _ text =>
      refine (Tree.every_scalar (by trivial)).mpr ⟨fun content hcontent => ?_, by simp [encode]⟩
      exact Tree.string.inj hcontent ▸ none_notMem_runes _
  | array _ items _ ih =>
      rw [encode, encodeItems_eq]
      exact Tree.every_array.mpr ⟨⟨by simp, by simp⟩, List.forall_mem_map.mpr ih⟩
  | object _ fields hsorted _ ih =>
      rw [encode_object hsorted]
      refine Tree.every_object.mpr ⟨⟨by simp, fun others hothers => ?_⟩,
        List.forall_mem_map.mpr ih⟩
      obtain rfl := Tree.object.inj hothers
      refine ⟨?_, List.forall_mem_map.mpr fun field _ => none_notMem_runes _⟩
      have hinj : Function.Injective fun key : String => runes key.toList :=
        fun first second hsame => String.toList_inj.mp (runes_inj hsame)
      have hnodup := (keys_nodup_of_sorted hsorted).map hinj
      rw [List.map_map] at hnodup ⊢
      exact hnodup

theorem within_encode (h : Canonical depth value) : (encode value).Within depth := by
  induction h with
  | null depth | bool depth | number depth | string depth => cases depth <;> trivial
  | array _ items _ ih =>
      rw [encode, encodeItems_eq]
      exact List.forall_mem_map.mpr ih
  | object _ fields hsorted _ ih =>
      rw [encode_object hsorted]
      exact List.forall_mem_map.mpr ih

theorem floats_encode (h : Canonical depth value) : (encode value).Numbers Binary64.IsFloat := by
  induction h with
  | null | bool | string => exact (Tree.every_scalar (by trivial)).mpr (by simp [encode])
  | number _ x hfloat =>
      refine (Tree.every_scalar (by trivial)).mpr fun y hy => ?_
      exact Tree.number.inj hy ▸ hfloat
  | array _ items _ ih =>
      rw [encode, encodeItems_eq]
      exact Tree.every_array.mpr ⟨by simp, List.forall_mem_map.mpr ih⟩
  | object _ fields hsorted _ ih =>
      rw [encode_object hsorted]
      exact Tree.every_object.mpr ⟨by simp, List.forall_mem_map.mpr ih⟩

theorem readsAs_text {x : Rat} (h : Binary64.IsFloat x) : ReadsAs Binary64.text printed x :=
  fun _ hrest => Binary64.numeral_text h hrest

theorem parse_write (h : Canonical depth value) :
    parse depth (runes (write Binary64.text (encode value))) =
      some ((encode value).mapNumbers printed) := by
  have hnumbers : (encode value).Numbers (ReadsAs Binary64.text printed) :=
    (floats_encode h).imp fun _ hfloats x hx => readsAs_text (hfloats x hx)
  have hread := @value_write [] Binary64.text printed depth _ (within_encode h)
    (wellFormed_encode h) hnumbers (by simp [Stops])
  have hspace := skipSpace_starts (starts_write _ hnumbers) []
  rw [List.append_nil] at hread hspace
  rw [parse, hspace, hread]
  simp [skipSpace]

/-! ## Round trip -/

theorem addField_of_lt {key : String} (h : ∀ field ∈ fields, key < field.1) :
    addField key value fields = (key, value) :: fields := by
  cases fields with
  | nil => rfl
  | cons first fields => rw [addField, if_pos (h first List.mem_cons_self)]

theorem goString_runes (text : String) : goString (runes text.toList) = text := by
  have hsame : repair (runes text.toList) = text.toList :=
    runes_inj (repair_sound (none_notMem_runes _))
  rw [goString, hsame, String.ofList_toList]

theorem decodeItems_of_forall₂ {items : List Tree}
    (h : List.Forall₂ (fun item value => decode item = some value) items values) :
    decodeItems items = some values := by
  induction h with
  | nil => rfl
  | cons hhead _ ih =>
      rw [decodeItems, hhead, ih]
      rfl

theorem decodeFields_of_sorted {trees : List (List Rune × Tree)}
    (h : List.Forall₂ (fun tree field => goString tree.1 = field.1 ∧ decode tree.2 = some field.2)
      trees fields) (hsorted : Sorted fields) : decodeFields trees = some fields := by
  induction h with
  | nil => rfl
  | cons hhead _ ih =>
      obtain ⟨hfirst, hrest⟩ := List.pairwise_cons.mp hsorted
      rw [decodeFields, hhead.1, hhead.2, ih hrest]
      exact congrArg some (addField_of_lt hfirst)

theorem decode_encode (h : Canonical depth value) :
    decode ((encode value).mapNumbers printed) = some value := by
  induction h with
  | null | bool => rfl
  | number _ x hfloat =>
      rw [encode, Tree.mapNumbers, decode, printed, Binary64.ofRat_shortest hfloat]
      rfl
  | string _ text => rw [encode, Tree.mapNumbers, decode, goString_runes]
  | array _ items _ ih =>
      have hitems : decodeItems (items.map (Tree.mapNumbers printed ∘ encode)) = some items :=
        decodeItems_of_forall₂ (List.forall₂_map_left_iff.mpr (List.forall₂_same.mpr ih))
      rw [encode, encodeItems_eq, Tree.mapNumbers, Tree.mapItems_eq, List.map_map, decode, hitems]
      rfl
  | object _ fields hsorted _ ih =>
      rw [encode_object hsorted, Tree.mapNumbers, Tree.mapFields_eq, List.map_map, decode,
        decodeFields_of_sorted ?_ hsorted]
      · rfl
      · refine List.forall₂_map_left_iff.mpr (List.forall₂_same.mpr fun field hfield => ?_)
        exact ⟨goString_runes _, ih field hfield⟩

end Canonical

/-! ## Events -/

section Event

variable {body : List Rune} {event : Event}

theorem toEvent_of_decode {tree : Tree} (h : decode tree = some (.object event.fields)) :
    toEvent tree = some event := by
  cases tree with
  | object fields =>
      obtain ⟨more, hmore, hsame⟩ := Option.map_eq_some_iff.mp h
      obtain rfl := Json.object.inj hsame
      rw [toEvent.eq_def]
      dsimp only
      split
      · next others hothers =>
          obtain rfl := Option.some.inj (hmore.symm.trans hothers)
          rfl
      · next hnone => exact absurd (hmore.symm.trans hnone) (by simp)
  | null | bool | string => simp [decode] at h
  | number => simp [decode, Option.map_eq_some_iff] at h
  | array => simp [decode, Option.map_eq_some_iff] at h

theorem toEvent_cases {tree : Tree} (h : toEvent tree = some event) :
    event = .empty ∨ ∃ fields, tree = .object fields ∧
      decode tree = some (.object event.fields) := by
  rw [toEvent.eq_def] at h
  split at h
  · exact .inl (Option.some.inj h).symm
  · next fields =>
      split at h
      · next more hmore =>
          have hdecode : decode (.object fields) = some (.object more) := by
            rw [decode, hmore]
            rfl
          obtain rfl := Option.some.inj h
          exact .inr ⟨fields, rfl, hdecode⟩
      · contradiction
  · contradiction

theorem canonical_of_bindJSON (h : bindJSON body = some event) :
    Canonical maxNestingDepth (.object event.fields) := by
  obtain ⟨⟨tree, rest⟩, hread, hevent⟩ := Option.bind_eq_some_iff.mp h
  rcases toEvent_cases hevent with rfl | ⟨fields, -, hdecode⟩
  · exact .object _ [] List.Pairwise.nil fun field hfield => absurd hfield List.not_mem_nil
  · exact canonical_of_decode tree (within_value hread) hdecode

theorem unmarshal_marshal {message : Text} (hbind : bindJSON body = some event)
    (hmarshal : marshal event = some message) : unmarshal message = some event := by
  obtain rfl := Option.some.inj hmarshal
  have hcanonical := canonical_of_bindJSON hbind
  rw [unmarshal, parse_write hcanonical]
  exact toEvent_of_decode (decode_encode hcanonical)

theorem encodingJson_roundTrip : encodingJson.RoundTrip :=
  fun _ _ hbind => ⟨_, rfl, unmarshal_marshal hbind rfl⟩

end Event

end NexPulse.Ingest
