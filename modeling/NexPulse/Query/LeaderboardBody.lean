import NexPulse.Foundation.JsonLayout
import NexPulse.Foundation.WholeNumber
import NexPulse.Ingest.RoundTrip
import NexPulse.Query.Leaderboard

/-!
# The body of a leaderboard response

`c.JSON` writes the entries as go-redis returns them: objects with a float64
Score and a Member, in this order.  A reader of the body gets the ranking back as
long as the scores have at most 53 bits.
-/

namespace NexPulse.Query

open NexPulse.Foundation NexPulse.Foundation.JsonText NexPulse.Foundation.Redis
  NexPulse.RateLimit NexPulse.Ingest

/-- A struct or a map with the fields in the order in which they are written. -/
def object (fields : List (String × Tree)) : Tree :=
  .object (fields.map fun field => (runes field.1.toList, field.2))

def entryTree (entry : String × Int) : Tree :=
  object [("Score", .number entry.2), ("Member", .string (runes entry.1.toList))]

/-- `errorText` is `err.Error()`. -/
def Body.tree (errorText : Error → String) : Body → Tree
  | .error failure => object [("error", .string (runes (errorText failure).toList))]
  | .leaderboard entries => object [("leaderboard", .array (entries.map entryTree))]

def Body.text (errorText : Error → String) (body : Body) : Text :=
  write Binary64.text (body.tree errorText)

example : (Body.leaderboard [("eve", 2), ("<bob>", 1)]).text (fun _ => "") =
    ("\x7b\"leaderboard\":[\x7b\"Score\":2,\"Member\":\"eve\"\x7d," ++
      "\x7b\"Score\":1,\"Member\":\"\\u003cbob\\u003e\"\x7d]\x7d").toList := by
  decide +kernel

/-! ## Trees that are read as they were written -/

structure Writable (depth : Nat) (tree : Tree) : Prop where
  within : tree.Within depth
  formed : tree.WellFormed
  floats : tree.Numbers Binary64.IsFloat

section Writable

variable {depth : Nat}

theorem writable_string (depth : Nat) (text : Text) : Writable depth (.string (runes text)) where
  within := by cases depth <;> trivial
  formed := (Tree.every_scalar (by trivial)).mpr
    ⟨fun _ hcontent => Tree.string.inj hcontent ▸ none_notMem_runes text, by simp⟩
  floats := (Tree.every_scalar (by trivial)).mpr (by simp)

theorem writable_number (depth : Nat) {n : Int} (h : n.natAbs < 2 ^ 53) :
    Writable depth (.number n) where
  within := by cases depth <;> trivial
  formed := (Tree.every_scalar (by trivial)).mpr (by simp)
  floats := (Tree.every_scalar (by trivial)).mpr fun _ hx =>
    Tree.number.inj hx ▸ Binary64.isFloat_of_ofRat (Binary64.ofRat_whole h)

theorem writable_array {items : List Tree} (h : ∀ item ∈ items, Writable depth item) :
    Writable (depth + 1) (.array items) where
  within := fun item hitem => (h item hitem).within
  formed := Tree.every_array.mpr ⟨by simp, fun item hitem => (h item hitem).formed⟩
  floats := Tree.every_array.mpr ⟨by simp, fun item hitem => (h item hitem).floats⟩

theorem writable_object {fields : List (String × Tree)} (hnodup : (fields.map Prod.fst).Nodup)
    (h : ∀ field ∈ fields, Writable depth field.2) : Writable (depth + 1) (object fields) where
  within := List.forall_mem_map.mpr fun field hfield => (h field hfield).within
  formed := by
    refine Tree.every_object.mpr ⟨⟨by simp, fun others hothers => ?_⟩,
      List.forall_mem_map.mpr fun field hfield => (h field hfield).formed⟩
    obtain rfl := Tree.object.inj hothers
    refine ⟨?_, List.forall_mem_map.mpr fun field _ => none_notMem_runes _⟩
    have hinj : Function.Injective fun key : String => runes key.toList :=
      fun first second hsame => String.toList_inj.mp (runes_inj hsame)
    have hkeys := hnodup.map hinj
    rw [List.map_map] at hkeys ⊢
    exact hkeys
  floats := Tree.every_object.mpr
    ⟨by simp, List.forall_mem_map.mpr fun field hfield => (h field hfield).floats⟩

theorem parse_writable {tree : Tree} (h : Writable depth tree) :
    parse depth (runes (write Binary64.text tree)) = some (tree.mapNumbers printed) :=
  parse_of_write h.within h.formed (h.floats.imp fun _ hfloats x hx => readsAs_text (hfloats x hx))

end Writable

/-! ## Reading a body -/

def field? (name : String) : Tree → Option Tree
  | .object fields => fields.lookup (runes name.toList)
  | _ => none

def readEntry (tree : Tree) : Option (String × Rat) :=
  match field? "Member" tree, field? "Score" tree with
  | some (.string member), some (.number score) => some (goString member, score)
  | _, _ => none

def readLeaderboard (body : List Rune) : Option (List (String × Rat)) :=
  match (parse maxNestingDepth body).bind (field? "leaderboard") with
  | some (.array items) => items.mapM readEntry
  | _ => none

def readError (body : List Rune) : Option String :=
  match (parse maxNestingDepth body).bind (field? "error") with
  | some (.string text) => some (goString text)
  | _ => none

section Reading

variable {errorText : Error → String} {entries : List (String × Int)}

theorem field_object (name : String) (fields : List (String × Tree)) :
    field? name ((object fields).mapNumbers printed) =
      (fields.lookup name).map (Tree.mapNumbers printed) := by
  rw [object, Tree.mapNumbers, Tree.mapFields_eq, List.map_map, field?]
  induction fields with
  | nil => rfl
  | cons field fields ih =>
      obtain ⟨key, tree⟩ := field
      rw [List.map_cons, Function.comp_apply, List.lookup_cons, List.lookup_cons]
      by_cases hsame : name = key
      · subst hsame
        simp
      · have hother : ¬ runes name.toList = runes key.toList := fun hrunes =>
          hsame (String.toList_inj.mp (runes_inj hrunes))
        rw [beq_false_of_ne hsame, beq_false_of_ne hother]
        exact ih

theorem readEntry_entryTree {entry : String × Int} (h : entry.2.natAbs < 2 ^ 53) :
    readEntry ((entryTree entry).mapNumbers printed) = some (entry.1, (entry.2 : Rat)) := by
  have hmember : field? "Member" ((entryTree entry).mapNumbers printed) =
      some (.string (runes entry.1.toList)) :=
    field_object "Member" _
  have hscore : field? "Score" ((entryTree entry).mapNumbers printed) =
      some (.number (printed entry.2)) :=
    field_object "Score" _
  rw [readEntry, hmember, hscore]
  simp only [goString_runes, printed, Binary64.value_shortest_whole h]

theorem mapM_entryTree (h : ∀ entry ∈ entries, entry.2.natAbs < 2 ^ 53) :
    (entries.map fun entry => (entryTree entry).mapNumbers printed).mapM readEntry =
      some (entries.map fun entry => (entry.1, (entry.2 : Rat))) := by
  induction entries with
  | nil => rfl
  | cons entry entries ih =>
      obtain ⟨hfirst, hrest⟩ := List.forall_mem_cons.mp h
      rw [List.map_cons, List.mapM_cons, readEntry_entryTree hfirst, ih hrest]
      rfl

theorem writable_leaderboard (h : ∀ entry ∈ entries, entry.2.natAbs < 2 ^ 53) :
    Writable maxNestingDepth ((Body.leaderboard entries).tree errorText) := by
  refine @writable_object 9999 _ (by simp) (List.forall_mem_singleton.mpr ?_)
  refine @writable_array 9998 _ (List.forall_mem_map.mpr fun entry hentry => ?_)
  refine @writable_object 9997 _ (by simp) ?_
  simp only [List.forall_mem_cons]
  exact ⟨writable_number _ (h entry hentry), writable_string _ _,
    fun _ hnone => absurd hnone List.not_mem_nil⟩

theorem readLeaderboard_text (h : ∀ entry ∈ entries, entry.2.natAbs < 2 ^ 53) :
    readLeaderboard (runes ((Body.leaderboard entries).text errorText)) =
      some (entries.map fun entry => (entry.1, (entry.2 : Rat))) := by
  have hitems : field? "leaderboard"
      (((Body.leaderboard entries).tree errorText).mapNumbers printed) =
        some (.array (entries.map fun entry => (entryTree entry).mapNumbers printed)) := by
    rw [Body.tree, field_object, List.lookup_cons_self, Option.map_some, Tree.mapNumbers,
      Tree.mapItems_eq, List.map_map]
    rfl
  rw [readLeaderboard, Body.text, parse_writable (writable_leaderboard h), Option.bind_some, hitems]
  exact mapM_entryTree h

theorem readError_leaderboard (h : ∀ entry ∈ entries, entry.2.natAbs < 2 ^ 53) :
    readError (runes ((Body.leaderboard entries).text errorText)) = none := by
  rw [readError, Body.text, parse_writable (writable_leaderboard h), Option.bind_some, Body.tree,
    field_object]
  rfl

theorem parse_error (failure : Error) :
    parse maxNestingDepth (runes ((Body.error failure).text errorText)) =
      some (((Body.error failure).tree errorText).mapNumbers printed) :=
  parse_writable (@writable_object 9999 _ (by simp)
    (List.forall_mem_singleton.mpr (writable_string _ _)))

theorem readError_text (failure : Error) :
    readError (runes ((Body.error failure).text errorText)) = some (errorText failure) := by
  rw [readError, parse_error, Option.bind_some, Body.tree, field_object, List.lookup_cons_self]
  simp only [Option.map_some, Tree.mapNumbers, goString_runes]

theorem readLeaderboard_error (failure : Error) :
    readLeaderboard (runes ((Body.error failure).text errorText)) = none := by
  rw [readLeaderboard, parse_error, Option.bind_some, Body.tree, field_object]
  rfl

end Reading

/--
Whoever reads the body of a response of /leaderboard gets the first ten users of
the set with their scores, in order; or, when Redis did not answer, the text of
the error and nothing of the set.
-/
theorem leaderboard_read (outcome : Outcome) {db : Db} (hset : HoldsSet (db "leaderboard:users"))
    (hscores : ∀ member score, (setOf (db "leaderboard:users")).Has member score →
      score.natAbs < 2 ^ 53) (errorText : Error → String) (redisErrors : Nat) :
    ∃ response errors, leaderboard outcome db redisErrors = (response, errors) ∧
      (outcome = .replied → response.status = 200 ∧ errors = redisErrors ∧
        readError (runes (response.body.text errorText)) = none ∧
        ∃ ranking, SortedSet.TopRanking (setOf (db "leaderboard:users")).Has
            (setOf (db "leaderboard:users")).card
            (fun first second => bytes first < bytes second) 10 ranking ∧
          readLeaderboard (runes (response.body.text errorText)) =
            some (ranking.map fun entry => (entry.1, (entry.2 : Rat)))) ∧
      (outcome ≠ .replied → response.status = 500 ∧ errors = redisErrors + 1 ∧
        readLeaderboard (runes (response.body.text errorText)) = none ∧
        readError (runes (response.body.text errorText)) = some (errorText .connection)) := by
  cases outcome with
  | replied =>
      obtain ⟨ranking, hanswer, htop⟩ := leaderboard_replied hset redisErrors
      rw [← bytes_lt_eq] at htop
      have hsmall : ∀ entry ∈ ranking, entry.2.natAbs < 2 ^ 53 :=
        fun entry hentry => hscores entry.1 entry.2 (htop.has entry hentry)
      refine ⟨_, _, hanswer, fun _ => ⟨rfl, rfl, readError_leaderboard hsmall, ranking, htop,
        readLeaderboard_text hsmall⟩, fun hfailed => absurd rfl hfailed⟩
  | replyLost | notExecuted =>
      exact ⟨_, _, rfl, fun hreplied => absurd hreplied (by decide), fun _ =>
        ⟨rfl, rfl, readLeaderboard_error _, readError_text _⟩⟩

theorem leaderboard_read_three_users :
    ∃ response, leaderboard .replied threeUsers 0 = (response, 0) ∧
      ∃ ranking : List (String × Int), ranking.length = 3 ∧
        readLeaderboard (runes (response.body.text fun _ => "")) =
          some (ranking.map fun entry => (entry.1, (entry.2 : Rat))) := by
  have hscores : ∀ member score, (setOf (threeUsers "leaderboard:users")).Has member score →
      score.natAbs < 2 ^ 53 := by
    have hall : ∀ entry ∈ (setOf (threeUsers "leaderboard:users")).entries,
        entry.score.natAbs < 2 ^ 53 := by
      decide
    exact fun member score hhas => hall _ hhas
  obtain ⟨response, errors, hanswer, hreplied, -⟩ :=
    @leaderboard_read .replied threeUsers trivial hscores (fun _ => "") 0
  obtain ⟨-, rfl, -, ranking, htop, hread⟩ := hreplied rfl
  exact ⟨response, hanswer, ranking, htop.length_eq.trans (by decide), hread⟩

end NexPulse.Query
