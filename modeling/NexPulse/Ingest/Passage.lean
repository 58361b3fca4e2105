import NexPulse.Ingest.Published
import NexPulse.Ingest.RoundTrip

/-!
# Events that pass through the gateway

The message of an accepted event has the nesting, the keys and the strings of
the first value of the body; each number has become the shortest decimal of the
nearest float64.  So the message denotes what the body denotes just if nothing
follows that value and every number in it is such a decimal already.
-/

namespace NexPulse.Ingest

open NexPulse.Foundation NexPulse.Foundation.JsonText NexPulse.Foundation.Numeral
open NexPulse.Foundation.Redis NexPulse.RateLimit

def passed (x : Rat) : Rat := printed ((Binary64.ofRat x).getD x)

/-! ## One value -/

structure Relayed (tree written : Tree) : Prop where
  shape : (tree.mapNumbers passed).Agrees (written.mapNumbers printed)
  agrees : tree.Agrees (written.mapNumbers printed) ↔ tree.Numbers Binary64.IsShortest

section Relayed

variable {items others : List Tree} {fields written : List (List Rune × Tree)}

theorem relayed_number {x float : Rat} (h : Binary64.ofRat x = some float) :
    Relayed (.number x) (.number float) := by
  have hscalar (y : Rat) : (Tree.number y).Within 0 := trivial
  constructor
  · have hpassed : passed x = printed float := by rw [passed, h, Option.getD_some]
    rw [Tree.mapNumbers, Tree.mapNumbers, hpassed]
    exact .number _
  · have hnumbers : (Tree.number x).Numbers Binary64.IsShortest ↔ Binary64.IsShortest x := by
      rw [Tree.Numbers, Tree.every_scalar (hscalar x)]
      simp
    rw [hnumbers, ← Binary64.shortest_eq_iff h, Tree.mapNumbers, printed]
    constructor
    · intro hagrees
      generalize (Binary64.shortest float).value = other at hagrees ⊢
      cases hagrees
      rfl
    · intro hsame
      rw [hsame]
      exact .number x

theorem relayed_self {tree : Tree} (hscalar : tree.Within 0)
    (hnumber : ∀ x, tree ≠ .number x) : Relayed tree tree := by
  have hnumbers (p : Rat → Prop) : tree.Numbers p :=
    (Tree.every_scalar hscalar).mpr fun x hx => absurd hx (hnumber x)
  have hkept (f : Rat → Rat) : tree.mapNumbers f = tree := by
    cases tree with
    | null | bool | string => rfl
    | number x => exact absurd rfl (hnumber x)
    | array | object => exact hscalar.elim
  have hself : tree.Agrees tree := by
    cases tree with
    | null => exact .null
    | bool value => exact .bool value
    | number x => exact .number x
    | string content => exact .string content
    | array | object => exact hscalar.elim
  refine ⟨?_, iff_of_true ?_ (hnumbers _)⟩
  · rwa [hkept, hkept]
  · rwa [hkept]

theorem relayed_array (h : List.Forall₂ Relayed items others) :
    Relayed (.array items) (.array others) := by
  constructor
  · rw [Tree.mapNumbers, Tree.mapItems_eq, Tree.mapNumbers, Tree.mapItems_eq, Tree.agrees_array,
      List.forall₂_map_left_iff, List.forall₂_map_right_iff]
    exact h.imp fun item other hrelayed => hrelayed.shape
  · rw [Tree.mapNumbers, Tree.mapItems_eq, Tree.agrees_array, List.forall₂_map_right_iff,
      Tree.forall₂_iff_left h fun item other hrelayed => hrelayed.agrees, Tree.Numbers,
      Tree.every_array]
    simp

theorem relayed_object {others : List (List Rune × Tree)} (hnodup : (fields.map Prod.fst).Nodup)
    (h : List.Forall₂ (fun field other => other.1 = field.1 ∧ Relayed field.2 other.2)
      fields others)
    (hwritten : written.Perm others) : Relayed (.object fields) (.object written) := by
  have hkeys : List.Forall₂ (fun field other => other.1 = field.1) fields others :=
    h.imp fun _ _ hboth => hboth.1
  have hmapped : List.Forall₂ (fun field other => other.1 = field.1) fields
      (others.map fun other => (other.1, other.2.mapNumbers printed)) :=
    List.forall₂_map_right_iff.mpr hkeys
  constructor
  · have hpassed : ((fields.map fun field => (field.1, field.2.mapNumbers passed)).map
        Prod.fst).Nodup := by
      rwa [List.map_map]
    rw [Tree.mapNumbers, Tree.mapFields_eq, Tree.mapNumbers, Tree.mapFields_eq,
      Tree.agrees_object hpassed (hwritten.map _) (List.forall₂_map_left_iff.mpr hmapped),
      List.forall₂_map_left_iff, List.forall₂_map_right_iff]
    exact h.imp fun field other hboth => hboth.2.shape
  · rw [Tree.mapNumbers, Tree.mapFields_eq, Tree.agrees_object hnodup (hwritten.map _) hmapped,
      List.forall₂_map_right_iff,
      Tree.forall₂_iff_left h fun field other hrelayed => hrelayed.2.agrees, Tree.Numbers,
      Tree.every_object]
    simp

theorem addField_perm {key : String} {value : Json} {entries : List (String × Json)}
    (h : key ∉ entries.map Prod.fst) :
    (addField key value entries).Perm ((key, value) :: entries) := by
  induction entries with
  | nil => exact .refl _
  | cons first entries ih =>
      obtain ⟨other, old⟩ := first
      rw [List.map_cons, List.mem_cons, not_or] at h
      rw [addField]
      split
      · exact .refl _
      · rw [if_neg h.1]
        exact ((ih h.2).cons _).trans (.swap _ _ _)

theorem goString_inj {first second : List Rune} (hfirst : none ∉ first) (hsecond : none ∉ second)
    (h : goString first = goString second) : first = second := by
  rw [goString, goString, String.ofList_inj] at h
  rw [← repair_sound hfirst, ← repair_sound hsecond, h]

def DecodesTo (field : List Rune × Tree) (entry : String × Json) : Prop :=
  entry.1 = goString field.1 ∧ decode field.2 = some entry.2

theorem decodeFields_forall₂ {entries : List (String × Json)}
    (hnodup : (fields.map Prod.fst).Nodup) (hsound : ∀ field ∈ fields, none ∉ field.1)
    (h : decodeFields fields = some entries) :
    ∃ inOrder, List.Forall₂ DecodesTo fields inOrder ∧ entries.Perm inOrder := by
  induction fields generalizing entries with
  | nil =>
      obtain rfl := Option.some.inj h
      exact ⟨[], .nil, .refl _⟩
  | cons field fields ih =>
      obtain ⟨key, tree⟩ := field
      rw [decodeFields] at h
      obtain ⟨value, hvalue, h⟩ := Option.bind_eq_some_iff.mp h
      obtain ⟨more, hmore, h⟩ := Option.bind_eq_some_iff.mp h
      obtain rfl := Option.some.inj h
      obtain ⟨hfresh, hrest⟩ := List.nodup_cons.mp hnodup
      obtain ⟨hkey, hkeys⟩ := List.forall_mem_cons.mp hsound
      obtain ⟨inOrder, hinOrder, hperm⟩ := ih hrest hkeys hmore
      refine ⟨(goString key, value) :: inOrder, .cons ⟨rfl, hvalue⟩ hinOrder, ?_⟩
      refine (addField_perm fun hmem => hfresh ?_).trans (hperm.cons _)
      obtain ⟨entry, hentry, hsame⟩ := List.mem_map.mp ((hperm.map Prod.fst).mem_iff.mp hmem)
      obtain ⟨other, hother, hdecodes⟩ := Tree.exists_of_mem_right hinOrder hentry
      have hequal := goString_inj (hkeys other hother) hkey (hdecodes.1.symm.trans hsame)
      exact hequal ▸ List.mem_map_of_mem hother

theorem relayed_of_decode (tree : Tree) (hformed : tree.WellFormed) {value : Json}
    (h : decode tree = some value) : Relayed tree (encode value) := by
  induction tree using Tree.induction generalizing value with
  | null =>
      obtain rfl := Option.some.inj h
      exact relayed_self trivial (by simp)
  | bool flag =>
      obtain rfl := Option.some.inj h
      exact relayed_self trivial (by simp)
  | number x =>
      rw [decode, Option.map_eq_some_iff] at h
      obtain ⟨float, hfloat, rfl⟩ := h
      exact relayed_number hfloat
  | string content =>
      obtain rfl := Option.some.inj h
      have hsound := repair_sound (hformed.here.1 content rfl)
      rw [encode, goString, String.toList_ofList, hsound]
      exact relayed_self trivial (by simp)
  | array items ih =>
      obtain ⟨values, hvalues, rfl⟩ := Option.map_eq_some_iff.mp h
      have hdecoded := decodeItems_forall₂ hvalues
      rw [encode, encodeItems_eq]
      refine relayed_array (List.forall₂_map_right_iff.mpr ?_)
      exact Tree.forall₂_of_mem hdecoded fun item hitem value hvalue =>
        ih item hitem (hformed.item item hitem) hvalue
  | object fields ih =>
      obtain ⟨entries, hentries, rfl⟩ := Option.map_eq_some_iff.mp h
      obtain ⟨hnodup, hsound⟩ := hformed.here.2 fields rfl
      obtain ⟨inOrder, hinOrder, hperm⟩ := decodeFields_forall₂ hnodup hsound hentries
      rw [encode_object (sorted_decodeFields hentries)]
      refine relayed_object hnodup (List.forall₂_map_right_iff.mpr ?_) (hperm.map _)
      refine Tree.forall₂_of_mem hinOrder fun field hfield entry hentry => ?_
      obtain ⟨hkey, hvalue⟩ := hentry
      refine ⟨?_, ih field hfield (hformed.field field hfield) hvalue⟩
      have hkeySound := repair_sound (hsound field hfield)
      rw [hkey, goString, String.toList_ofList, hkeySound]

end Relayed

/-! ## One body -/

/-- The body as a whole is one JSON object, and the message is the same value. -/
def Unchanged (body : List Rune) (message : Text) : Prop :=
  ∃ fields tree, parse maxNestingDepth body = some (.object fields) ∧
    parse maxNestingDepth (runes message) = some tree ∧ (Tree.object fields).Agrees tree

/-- Nothing but spaces follows the first value, and each number is the shortest of a float64. -/
def Passable (body : List Rune) : Prop :=
  ∃ tree rest, value maxNestingDepth (skipSpace body) = some (tree, rest) ∧ skipSpace rest = [] ∧
    tree.Numbers Binary64.IsShortest

instance : DecidablePred Passable := fun body =>
  decidable_of_iff (∃ read ∈ value maxNestingDepth (skipSpace body), skipSpace read.2 = [] ∧
      read.1.Numbers Binary64.IsShortest) <| by
    constructor
    · rintro ⟨⟨tree, rest⟩, hread, hspace, hnumbers⟩
      exact ⟨tree, rest, hread, hspace, hnumbers⟩
    · rintro ⟨tree, rest, hread, hspace, hnumbers⟩
      exact ⟨(tree, rest), hread, hspace, hnumbers⟩

section Body

variable {body : List Rune} {event : Event} {message : Text}

theorem object_of_bindJSON (hbind : bindJSON body = some event) (huser : HasUser event) :
    ∃ fields rest, value maxNestingDepth (skipSpace body) = some (.object fields, rest) ∧
      decode (.object fields) = some (.object event.fields) := by
  obtain ⟨⟨tree, rest⟩, hread, hevent⟩ := Option.bind_eq_some_iff.mp hbind
  rcases toEvent_cases hevent with rfl | ⟨fields, rfl, hdecode⟩
  · obtain ⟨userID, hfound, -⟩ := huser
    contradiction
  · exact ⟨fields, rest, hread, hdecode⟩

structure Passes (body : List Rune) (message : Text) (first : Tree) : Prop where
  shape : ∃ tree, parse maxNestingDepth (runes message) = some tree ∧
    (first.mapNumbers passed).Agrees tree
  unchanged : Unchanged body message ↔ Passable body

theorem passes_of_bindJSON (hbind : bindJSON body = some event) (huser : HasUser event)
    (hmarshal : marshal event = some message) :
    ∃ fields rest, value maxNestingDepth (skipSpace body) = some (.object fields, rest) ∧
      ((Tree.object fields).WellFormed → Passes body message (.object fields)) := by
  obtain ⟨fields, rest, hread, hdecode⟩ := object_of_bindJSON hbind huser
  obtain rfl := Option.some.inj hmarshal
  refine ⟨fields, rest, hread, fun hformed => ?_⟩
  have hrelayed := relayed_of_decode _ hformed hdecode
  have hparse := parse_write (canonical_of_bindJSON hbind)
  have hwhole : parse maxNestingDepth body =
      if skipSpace rest = [] then some (.object fields) else none := by
    rw [parse, hread]
    rfl
  refine ⟨⟨_, hparse, hrelayed.shape⟩, ?_, ?_⟩
  · rintro ⟨others, tree, hbody, hmessage, hagrees⟩
    rw [hwhole] at hbody
    split at hbody
    · next hspace =>
        obtain rfl := Tree.object.inj (Option.some.inj hbody)
        obtain rfl := Option.some.inj (hparse.symm.trans hmessage)
        exact ⟨_, _, hread, hspace, hrelayed.agrees.mp hagrees⟩
    · contradiction
  · rintro ⟨tree, after, hfirst, hspace, hnumbers⟩
    obtain ⟨rfl, rfl⟩ := Prod.mk.inj (Option.some.inj (hread.symm.trans hfirst))
    rw [if_pos hspace] at hwhole
    exact ⟨fields, _, hwhole, hparse, hrelayed.agrees.mpr hnumbers⟩

end Body

/-! ## Accepted requests -/

section Run

variable {db : Db} {labels : List (Happening (List Rune))} {state : Ledger (List Rune) Text}
  {id : Nat} {handler : Handler (List Rune)} {response : Response}

def userBody : List Rune := runes "\x7b\"user_id\":\"a\",\"n\":0.1\x7d".toList

/-- An accepted body starts with an object, and the one message for it carries that object. -/
theorem accepted_passes (hrun : (ledger encodingJson).run (Ledger.start db) labels = some state)
    (hfound : state.gateway.handlers[id]? = some handler)
    (hpoint : handler.point = .finished response) (hstatus : response.status = 202) :
    ∃ body handed fields rest, state.received id = some body ∧ state.handed id = [handed] ∧
      handed.written = true ∧
      value maxNestingDepth (skipSpace body) = some (.object fields, rest) ∧
      ((Tree.object fields).WellFormed →
        Passes body handed.message.value (.object fields)) := by
  obtain ⟨⟨⟨body, hreceived, hbind⟩, ⟨handed, hhanded, hwritten, hmarshal⟩⟩, huser⟩ :=
    published_of_run hrun hfound hpoint hstatus
  obtain ⟨fields, rest, hread, hpasses⟩ := passes_of_bindJSON hbind huser hmarshal
  exact ⟨body, handed, fields, rest, hreceived, hhanded, hwritten, hread, hpasses⟩

theorem accepted_passes_user :
    ∃ state handed,
      (ledger encodingJson).run (Ledger.start fun _ => none) (acceptedRun userBody) = some state ∧
      state.handed 0 = [handed] ∧ Unchanged userBody handed.message.value := by
  have hdecoded : (encodingJson.bindJSON userBody).bind (fun event => event.string? "user_id") =
      some "a" := by
    decide +kernel
  have hformed : ∀ read ∈ value maxNestingDepth (skipSpace userBody), read.1.WellFormed := by
    decide +kernel
  have hpassable : Passable userBody := by decide +kernel
  obtain ⟨event, hbind, huser⟩ := Option.bind_eq_some_iff.mp hdecoded
  obtain ⟨state, hrun, hfinished, hreceived, -⟩ :=
    finished_of_acceptedRun hbind huser (by decide) rfl
  obtain ⟨body, handed, fields, rest, hbody, hhanded, -, hread, hpasses⟩ :=
    accepted_passes hrun hfinished rfl rfl
  obtain rfl := Option.some.inj (hreceived.symm.trans hbody)
  exact ⟨state, handed, hrun, hhanded, (hpasses (hformed _ hread)).unchanged.mpr hpassable⟩

/-- A well-formed body is answered with 202 in some run, and the message is another value. -/
structure Altered (body : List Rune) : Prop where
  formed : ∀ read ∈ value maxNestingDepth (skipSpace body), read.1.WellFormed
  altered : ∃ state handed,
    (ledger encodingJson).run (Ledger.start fun _ => none) (acceptedRun body) = some state ∧
    state.gateway.handlers[0]?.map Handler.point = some (.finished accepted) ∧
    state.received 0 = some body ∧ state.handed 0 = [handed] ∧
    ¬ Unchanged body handed.message.value

theorem altered_of_not_passable {body : List Rune} {userID : String}
    (hdecoded : (encodingJson.bindJSON body).bind (fun event => event.string? "user_id") =
      some userID) (hnonempty : userID ≠ "")
    (hformed : ∀ read ∈ value maxNestingDepth (skipSpace body), read.1.WellFormed)
    (h : ¬ Passable body) : Altered body := by
  refine ⟨hformed, ?_⟩
  obtain ⟨event, hbind, huser⟩ := Option.bind_eq_some_iff.mp hdecoded
  obtain ⟨state, hrun, hfinished, hreceived, hhanded⟩ :=
    finished_of_acceptedRun hbind huser hnonempty rfl
  obtain ⟨fields, rest, hread, hpasses⟩ := passes_of_bindJSON hbind ⟨_, huser, hnonempty⟩ rfl
  refine ⟨state, _, hrun, ?_, hreceived, hhanded, ?_⟩
  · rw [hfinished, Option.map_some]
  · exact fun hunchanged => h ((hpasses (hformed _ hread)).unchanged.mp hunchanged)

def longNumber : List Rune := runes "\x7b\"user_id\":\"a\",\"n\":9007199254740993\x7d".toList

def trailing : List Rune := runes "\x7b\"user_id\":\"a\"\x7dx".toList

theorem altered_bodies : Altered longNumber ∧ Altered trailing := by
  have hlong : (encodingJson.bindJSON longNumber).bind (fun event => event.string? "user_id") =
      some "a" := by
    decide +kernel
  have htrailing : (encodingJson.bindJSON trailing).bind (fun event => event.string? "user_id") =
      some "a" := by
    decide +kernel
  constructor
  · exact altered_of_not_passable hlong (by decide) (by decide +kernel) (by decide +kernel)
  · exact altered_of_not_passable htrailing (by decide) (by decide +kernel) (by decide +kernel)

end Run

end NexPulse.Ingest
