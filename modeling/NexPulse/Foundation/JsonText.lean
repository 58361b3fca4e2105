import NexPulse.Foundation.JsonString
import NexPulse.Foundation.JsonTree

/-!
# JSON texts

`value` reads the first value of a text and returns what follows it; arrays and
objects are nested at most to a given depth.  `write` writes a tree without
spaces, with numbers as a given function writes them.
-/

namespace NexPulse.Foundation.JsonText

open NexPulse.Foundation.Numeral

/-! ## Values -/

def isSpace (rune : Rune) : Bool := rune.any fun char => char ∈ [' ', '\t', '\n', '\r']

def skipSpace (text : List Rune) : List Rune := text.dropWhile isSpace

section Elements

variable {Item : Type}

/-- Items with commas between them; every item takes one of the steps. -/
def items (item : Reader Item) (closing : Char) : Nat → Reader (List Item)
  | 0, _ => none
  | steps + 1, text => do
      let (first, text) ← item (skipSpace text)
      match skipSpace text with
      | some char :: rest =>
          if char = ',' then
            let (more, rest) ← items item closing steps rest
            return (first :: more, rest)
          else if char = closing then return ([first], rest)
          else none
      | _ => none

def elements (item : Reader Item) (closing : Char) : Reader (List Item) := fun text =>
  if (skipSpace text).head? = some (some closing) then some ([], (skipSpace text).tail)
  else items item closing text.length text

def field (value : Reader Item) : Reader (List Rune × Item)
  | some '"' :: rest => do
      let (key, rest) ← string rest
      match skipSpace rest with
      | some ':' :: rest =>
          let (item, rest) ← value (skipSpace rest)
          return ((key, item), rest)
      | _ => none
  | _ => none

end Elements

def keyword (word : String) (tree : Tree) : Reader Tree := fun text =>
  if runes word.toList <+: text then some (tree, text.drop word.toList.length) else none

def value : Nat → Reader Tree
  | 0, text => scalar text
  | depth + 1, text =>
      if text.head? = some (some '[') then do
        let (items, rest) ← elements (fun text => value depth text) ']' text.tail
        return (.array items, rest)
      else if text.head? = some (some '{') then do
        let (fields, rest) ← elements (field fun text => value depth text) '}' text.tail
        return (.object fields, rest)
      else scalar text
where
  scalar (text : List Rune) : Option (Tree × List Rune) :=
    match text.head? with
    | some (some '"') => do
        let (content, rest) ← string text.tail
        return (.string content, rest)
    | some (some 't') => keyword "true" (.bool true) text
    | some (some 'f') => keyword "false" (.bool false) text
    | some (some 'n') => keyword "null" .null text
    | _ => do
        let (decimal, rest) ← numeral text
        return (.number decimal.value, rest)

def parse (depth : Nat) (text : List Rune) : Option Tree := do
  let (tree, rest) ← value depth (skipSpace text)
  if skipSpace rest = [] then tree else none

/-! ## Writing -/

def commas : List Text → Text
  | [] => []
  | [text] => text
  | text :: next :: more => text ++ ',' :: commas (next :: more)

mutual

def write (number : Rat → Text) : Tree → Text
  | .null => "null".toList
  | .bool true => "true".toList
  | .bool false => "false".toList
  | .number x => number x
  | .string content => quote (repair content)
  | .array items => '[' :: (commas (writeItems number items) ++ [']'])
  | .object fields => '{' :: (commas (writeFields number fields) ++ ['}'])

def writeItems (number : Rat → Text) : List Tree → List Text
  | [] => []
  | item :: items => write number item :: writeItems number items

def writeFields (number : Rat → Text) : List (List Rune × Tree) → List Text
  | [] => []
  | (key, tree) :: fields =>
      (quote (repair key) ++ ':' :: write number tree) :: writeFields number fields

end

/-! ## Values are read as they were written -/

section Values

variable {rest : List Rune} {number : Rat → Text} {f : Rat → Rat}

theorem writeItems_eq (number : Rat → Text) (items : List Tree) :
    writeItems number items = items.map (write number) := by
  induction items with
  | nil => rfl
  | cons item items ih => rw [writeItems, ih, List.map_cons]

theorem writeFields_eq (number : Rat → Text) (fields : List (List Rune × Tree)) :
    writeFields number fields =
      fields.map fun field => quote (repair field.1) ++ ':' :: write number field.2 := by
  induction fields with
  | nil => rfl
  | cons field fields ih => rw [writeFields, ih, List.map_cons]

/-- The text that `number` writes for `x` is a numeral for `f x`. -/
def ReadsAs (number : Rat → Text) (f : Rat → Rat) (x : Rat) : Prop :=
  ∀ rest, Stops rest →
    ∃ read, numeral (runes (number x) ++ rest) = some (read, rest) ∧ read.value = f x

theorem skipSpace_of_not {rune : Rune} (h : ¬ isSpace rune) (rest : List Rune) :
    skipSpace (rune :: rest) = rune :: rest := by
  rw [skipSpace, List.dropWhile_cons_of_neg h]

def starts : List Char :=
  ['"', '[', '{', 't', 'f', 'n', '-', '0', '1', '2', '3', '4', '5', '6', '7', '8', '9']

theorem stops_mark {mark : Char} (h : mark ∈ [',', ']', '}']) (rest : List Rune) :
    Stops (some mark :: rest) := by
  have hall : [',', ']', '}'].all fun mark =>
      digit? (some mark) = none ∧ some mark ∉ [some '.', some 'e', some 'E'] := by
    decide
  intro rune hrune
  obtain rfl := Option.mem_some_iff.mp hrune
  exact of_decide_eq_true (List.all_eq_true.mp hall mark h)

theorem skipSpace_mark {mark : Char} (h : mark ∈ [',', ']', '}', ':']) (rest : List Rune) :
    skipSpace (some mark :: rest) = some mark :: rest := by
  have hall : [',', ']', '}', ':'].all fun mark => ¬ isSpace (some mark) := by decide
  exact skipSpace_of_not (of_decide_eq_true (List.all_eq_true.mp hall mark h)) rest

theorem start_facts {char : Char} (h : char ∈ starts) :
    ¬ isSpace (some char) ∧ char ∉ [']', '}'] := by
  have hall : starts.all fun char => ¬ isSpace (some char) ∧ char ∉ [']', '}'] := by decide
  exact of_decide_eq_true (List.all_eq_true.mp hall char h)

section Sequence

variable {Item Source : Type} {item : Reader Item} {closing : Char} {text : Source → Text}
  {result : Source → Item} {sources : List Source}

def Starts (text : Text) : Prop := ∃ char more, text = char :: more ∧ char ∈ starts

theorem skipSpace_starts {text : Text} (h : Starts text) (rest : List Rune) :
    skipSpace (runes text ++ rest) = runes text ++ rest := by
  obtain ⟨char, more, rfl, hchar⟩ := h
  exact skipSpace_of_not (start_facts hchar).1 _

theorem items_write (hclosing : closing ∈ [']', '}'])
    (hitem : ∀ source ∈ sources, ∀ rest, Stops rest →
      item (runes (text source) ++ rest) = some (result source, rest))
    (hstarts : ∀ source ∈ sources, Starts (text source)) (hsome : sources ≠ []) {steps : Nat}
    (hsteps : sources.length ≤ steps) :
    items item closing steps (runes (commas (sources.map text)) ++ some closing :: rest) =
      some (sources.map result, rest) := by
  induction sources generalizing steps with
  | nil => contradiction
  | cons source sources ih =>
      obtain ⟨steps, rfl⟩ := Nat.exists_eq_succ_of_ne_zero (Nat.ne_zero_of_lt hsteps)
      obtain ⟨hfirst, hrest⟩ := List.forall_mem_cons.mp hitem
      obtain ⟨hstart, hmore⟩ := List.forall_mem_cons.mp hstarts
      have hmark : closing ∈ [',', ']', '}'] := List.mem_cons_of_mem _ hclosing
      have hcomma : closing ≠ ',' := by
        rintro rfl
        exact absurd hclosing (by decide)
      cases sources with
      | nil =>
          rw [List.map_singleton, commas, items, skipSpace_starts hstart,
            hfirst _ (stops_mark hmark rest)]
          have hspace := @skipSpace_mark closing (List.mem_append_left [':'] hmark) rest
          simp [hspace, hcomma]
      | cons next sources =>
          have htail := ih hrest hmore (List.cons_ne_nil _ _) (Nat.le_of_succ_le_succ hsteps)
          have hcut : runes (commas ((source :: next :: sources).map text)) ++
              some closing :: rest = runes (text source) ++
                some ',' :: (runes (commas ((next :: sources).map text)) ++
                  some closing :: rest) := by
            simp [commas, runes]
          rw [hcut, items, skipSpace_starts hstart, hfirst _ (stops_mark (by simp) _)]
          have hspace := fun more => @skipSpace_mark ',' (by simp) more
          simp only [Option.bind_eq_bind, Option.bind_some, hspace, if_pos, htail]
          rfl

theorem length_commas (texts : List Text) : texts.length ≤ (commas texts).length + 1 := by
  induction texts with
  | nil => simp
  | cons text texts ih =>
      cases texts with
      | nil => simp
      | cons next texts =>
          rw [commas]
          simp only [List.length_append, List.length_cons] at ih ⊢
          omega

theorem elements_write (hclosing : closing ∈ [']', '}'])
    (hitem : ∀ source ∈ sources, ∀ rest, Stops rest →
      item (runes (text source) ++ rest) = some (result source, rest))
    (hstarts : ∀ source ∈ sources, Starts (text source)) :
    elements item closing (runes (commas (sources.map text)) ++ some closing :: rest) =
      some (sources.map result, rest) := by
  by_cases hnone : sources = []
  · have hmark : closing ∈ [',', ']', '}', ':'] :=
      List.mem_cons_of_mem _ (List.mem_append_left [':'] hclosing)
    have hspace := skipSpace_mark hmark rest
    rw [hnone]
    simp [elements, commas, runes, hspace]
  · obtain ⟨source, more, rfl⟩ := List.exists_cons_of_ne_nil hnone
    obtain ⟨char, others, hchar, hstart⟩ := hstarts source List.mem_cons_self
    have hcommas : Starts (commas ((source :: more).map text)) := by
      cases more with
      | nil => exact ⟨char, others, hchar, hstart⟩
      | cons next more => exact ⟨char, _, by simp [commas, hchar]; rfl, hstart⟩
    have hlength := length_commas ((source :: more).map text)
    rw [elements, skipSpace_starts hcommas, if_neg ?_]
    · refine items_write hclosing hitem hstarts hnone ?_
      simp only [List.length_map, List.length_append, List.length_cons, runes] at hlength ⊢
      omega
    · obtain ⟨first, others, hfirst, hmem⟩ := hcommas
      rw [hfirst]
      rintro hsame
      obtain rfl : first = closing := by simpa [runes] using hsame
      exact (start_facts hmem).2 hclosing

theorem field_write {value : Reader Item} {key : List Rune} {text : Text} {result : Item}
    (hkey : none ∉ key) (htext : Starts text)
    (hvalue : value (runes text ++ rest) = some (result, rest)) :
    field value (runes (quote (repair key) ++ ':' :: text) ++ rest) =
      some ((key, result), rest) := by
  have hcut : runes (quote (repair key) ++ ':' :: text) ++ rest =
      some '"' :: (runes ((repair key).flatMap escape) ++ some '"' :: some ':' ::
        (runes text ++ rest)) := by
    simp [quote, runes]
  have hspace := @skipSpace_mark ':' (by simp) (runes text ++ rest)
  rw [hcut, field, string_write, repair_sound hkey]
  simp only [Option.bind_eq_bind, Option.bind_some, hspace, skipSpace_starts htext, hvalue]
  rfl

end Sequence

theorem ReadsAs.starts {x : Rat} (h : ReadsAs number f x) :
    ∃ char more, number x = char :: more ∧ char ∈ Numeral.starts := by
  obtain ⟨read, hread, -⟩ := h [] (by simp [Stops])
  cases htext : number x with
  | nil =>
      have hnone : numeral [] = none := rfl
      rw [htext] at hread
      exact absurd (hnone.symm.trans hread) (by simp)
  | cons char more =>
      rw [htext] at hread
      exact ⟨char, more, rfl, mem_starts_of_numeral hread⟩

theorem starts_write (tree : Tree) (hnumbers : tree.Numbers (ReadsAs number f)) :
    Starts (write number tree) := by
  cases tree with
  | null => exact ⟨'n', _, rfl, by decide⟩
  | bool value =>
      cases value with
      | true => exact ⟨'t', _, rfl, by decide⟩
      | false => exact ⟨'f', _, rfl, by decide⟩
  | number x =>
      obtain ⟨char, more, htext, hchar⟩ := (hnumbers.here x rfl).starts
      have hall : Numeral.starts ⊆ starts := by decide
      exact ⟨char, more, htext, hall hchar⟩
  | string content => exact ⟨'"', _, rfl, by decide⟩
  | array items => exact ⟨'[', _, rfl, by decide⟩
  | object fields => exact ⟨'{', _, rfl, by decide⟩

theorem keyword_write (word : String) (tree : Tree) (rest : List Rune) :
    keyword word tree (runes word.toList ++ rest) = some (tree, rest) := by
  have hlength : word.toList.length = (runes word.toList).length := by simp [runes]
  rw [keyword, if_pos (List.prefix_append _ _), hlength, List.drop_left]

theorem scalar_number {x : Rat} (h : ReadsAs number f x) (hrest : Stops rest) :
    value.scalar (runes (number x) ++ rest) = some (.number (f x), rest) := by
  obtain ⟨char, more, htext, hchar⟩ := h.starts
  obtain ⟨read, hread, hvalue⟩ := h rest hrest
  have hall : Numeral.starts.all fun char => char ∉ ['"', 't', 'f', 'n'] := by decide
  have hother : char ∉ ['"', 't', 'f', 'n'] :=
    of_decide_eq_true (List.all_eq_true.mp hall char hchar)
  rw [htext] at hread ⊢
  simp only [List.mem_cons, List.not_mem_nil, or_false, not_or] at hother
  rw [runes_cons, List.cons_append] at hread ⊢
  simp [value.scalar, hother, hread, hvalue]

theorem scalar_write (tree : Tree) (hscalar : tree.Within 0) (hformed : tree.WellFormed)
    (hnumbers : tree.Numbers (ReadsAs number f)) (hrest : Stops rest) :
    value.scalar (runes (write number tree) ++ rest) = some (tree.mapNumbers f, rest) := by
  cases tree with
  | null => exact keyword_write "null" .null rest
  | bool value =>
      cases value with
      | true => exact keyword_write "true" (.bool true) rest
      | false => exact keyword_write "false" (.bool false) rest
  | number x => exact scalar_number (hnumbers.here x rfl) hrest
  | string content =>
      have hsound := hformed.here.1 content rfl
      have hcut : runes (write number (.string content)) ++ rest =
          some '"' :: (runes ((repair content).flatMap escape) ++ some '"' :: rest) := by
        simp [write, quote, runes]
      rw [hcut, value.scalar, List.head?_cons, List.tail_cons, string_write, repair_sound hsound]
      rfl
  | array items => exact hscalar.elim
  | object fields => exact hscalar.elim

theorem scalar_bracket {mark : Char} (h : mark ∈ ['[', '{']) (rest : List Rune) :
    value.scalar (some mark :: rest) = none := by
  have hall : ['[', '{'].all fun mark => mark ∉ Numeral.starts ∧ mark ∉ ['"', 't', 'f', 'n'] := by
    decide
  obtain ⟨hstart, hother⟩ := of_decide_eq_true (List.all_eq_true.mp hall mark h)
  have hnone : numeral (some mark :: rest) = none := by
    cases hread : numeral (some mark :: rest) with
    | none => rfl
    | some result => exact absurd (mem_starts_of_numeral hread) hstart
  simp only [List.mem_cons, List.not_mem_nil, or_false, not_or] at hother
  simp [value.scalar, hother, hnone]

theorem value_of_scalar {depth : Nat} {text : List Rune} {result : Tree × List Rune}
    (h : value.scalar text = some result) : value depth text = some result := by
  cases depth with
  | zero => exact h
  | succ depth =>
      have hopen : ∀ mark ∈ ['[', '{'], text.head? ≠ some (some mark) := by
        intro mark hmark hhead
        obtain ⟨more, rfl⟩ := List.head?_eq_some_iff.mp hhead
        rw [scalar_bracket hmark] at h
        contradiction
      rw [value, if_neg (hopen '[' (by simp)), if_neg (hopen '{' (by simp)), h]

/-- A tree that is written is read back, with its numbers as their numerals read. -/
theorem value_write (depth : Nat) (tree : Tree) (hdepth : tree.Within depth)
    (hformed : tree.WellFormed) (hnumbers : tree.Numbers (ReadsAs number f))
    (hrest : Stops rest) :
    value depth (runes (write number tree) ++ rest) = some (tree.mapNumbers f, rest) := by
  induction depth generalizing tree rest with
  | zero => exact scalar_write tree hdepth hformed hnumbers hrest
  | succ depth ih =>
      cases tree with
      | array items =>
          have helements := @elements_write rest Tree Tree (fun text => value depth text) ']'
            (write number) (Tree.mapNumbers f) items (by simp)
            (fun item hitem more hmore => ih item (hdepth item hitem) (hformed.item item hitem)
              (hnumbers.item item hitem) hmore)
            (fun item hitem => starts_write item (hnumbers.item item hitem))
          have hcut : runes (write number (.array items)) ++ rest =
              some '[' :: (runes (commas (items.map (write number))) ++ some ']' :: rest) := by
            simp [write, runes, writeItems_eq]
          rw [hcut, value, List.head?_cons, if_pos rfl, List.tail_cons, helements]
          simp [Tree.mapNumbers, Tree.mapItems_eq]
      | object fields =>
          obtain ⟨-, hkeys⟩ := hformed.here.2 fields rfl
          have helements := @elements_write rest (List Rune × Tree) (List Rune × Tree)
            (field fun text => value depth text) '}'
            (fun entry => quote (repair entry.1) ++ ':' :: write number entry.2)
            (fun entry => (entry.1, entry.2.mapNumbers f)) fields (by simp)
            (fun entry hentry more hmore => field_write (hkeys entry hentry)
              (starts_write entry.2 (hnumbers.field entry hentry))
              (ih entry.2 (hdepth entry hentry) (hformed.field entry hentry)
                (hnumbers.field entry hentry) hmore))
            (fun entry hentry => ⟨'"', _, rfl, by decide⟩)
          have hcut : runes (write number (.object fields)) ++ rest =
              some '{' :: (runes (commas (fields.map fun entry =>
                quote (repair entry.1) ++ ':' :: write number entry.2)) ++ some '}' :: rest) := by
            simp [write, runes, writeFields_eq]
          rw [hcut, value, List.head?_cons, if_neg (by decide), if_pos rfl, List.tail_cons,
            helements]
          simp [Tree.mapNumbers, Tree.mapFields_eq]
      | _ => exact value_of_scalar (scalar_write _ trivial hformed hnumbers hrest)

end Values

/-! ## Values are nested as deep as they were read -/

section Depth

variable {Item : Type} {item : Reader Item} {closing : Char} {text rest : List Rune}
  {result : List Item}

theorem items_mem {steps : Nat} (h : items item closing steps text = some (result, rest)) :
    ∀ one ∈ result, ∃ before after, item before = some (one, after) := by
  induction steps generalizing text result with
  | zero => contradiction
  | succ steps ih =>
      rw [items] at h
      obtain ⟨⟨first, following⟩, hfirst, h⟩ := Option.bind_eq_some_iff.mp h
      dsimp only at h
      split at h
      · split at h
        · obtain ⟨⟨more, after⟩, hmore, h⟩ := Option.bind_eq_some_iff.mp h
          obtain ⟨rfl, rfl⟩ := Prod.mk.inj (Option.some.inj h)
          exact List.forall_mem_cons.mpr ⟨⟨_, _, hfirst⟩, ih hmore⟩
        · split at h
          · obtain ⟨rfl, rfl⟩ := Prod.mk.inj (Option.some.inj h)
            exact List.forall_mem_singleton.mpr ⟨_, _, hfirst⟩
          · contradiction
      · contradiction

theorem elements_mem (h : elements item closing text = some (result, rest)) :
    ∀ one ∈ result, ∃ before after, item before = some (one, after) := by
  rw [elements] at h
  split at h
  · obtain ⟨rfl, -⟩ := Prod.mk.inj (Option.some.inj h)
    exact fun _ hnone => absurd hnone List.not_mem_nil
  · exact items_mem h

theorem field_value {value : Reader Item} {entry : List Rune × Item}
    (h : field value text = some (entry, rest)) :
    ∃ before after, value before = some (entry.2, after) := by
  unfold field at h
  split at h
  · obtain ⟨⟨key, following⟩, -, h⟩ := Option.bind_eq_some_iff.mp h
    dsimp only at h
    split at h
    · obtain ⟨⟨tree, after⟩, hvalue, h⟩ := Option.bind_eq_some_iff.mp h
      obtain ⟨rfl, -⟩ := Prod.mk.inj (Option.some.inj h)
      exact ⟨_, _, hvalue⟩
    · contradiction
  · contradiction

theorem keyword_eq {word : String} {tree other : Tree}
    (h : keyword word tree text = some (other, rest)) : other = tree := by
  rw [keyword] at h
  split at h
  · exact (Prod.mk.inj (Option.some.inj h)).1.symm
  · contradiction

theorem within_scalar {tree : Tree} (depth : Nat) (h : value.scalar text = some (tree, rest)) :
    tree.Within depth := by
  rw [value.scalar] at h
  split at h
  · obtain ⟨⟨content, after⟩, -, h⟩ := Option.bind_eq_some_iff.mp h
    obtain ⟨rfl, -⟩ := Prod.mk.inj (Option.some.inj h)
    cases depth <;> trivial
  · obtain rfl := keyword_eq h
    cases depth <;> trivial
  · obtain rfl := keyword_eq h
    cases depth <;> trivial
  · obtain rfl := keyword_eq h
    cases depth <;> trivial
  · obtain ⟨⟨decimal, after⟩, -, h⟩ := Option.bind_eq_some_iff.mp h
    obtain ⟨rfl, -⟩ := Prod.mk.inj (Option.some.inj h)
    cases depth <;> trivial

theorem within_value {depth : Nat} {tree : Tree} (h : value depth text = some (tree, rest)) :
    tree.Within depth := by
  induction depth generalizing text rest tree with
  | zero => exact within_scalar 0 h
  | succ depth ih =>
      rw [value] at h
      split at h
      · obtain ⟨⟨items, after⟩, hitems, h⟩ := Option.bind_eq_some_iff.mp h
        obtain ⟨rfl, -⟩ := Prod.mk.inj (Option.some.inj h)
        intro item hitem
        obtain ⟨before, following, hitem⟩ := elements_mem hitems item hitem
        exact ih hitem
      · split at h
        · obtain ⟨⟨fields, after⟩, hfields, h⟩ := Option.bind_eq_some_iff.mp h
          obtain ⟨rfl, -⟩ := Prod.mk.inj (Option.some.inj h)
          intro entry hentry
          obtain ⟨before, following, hentry⟩ := elements_mem hfields entry hentry
          obtain ⟨inner, last, hvalue⟩ := field_value hentry
          exact ih hvalue
        · exact within_scalar _ h

end Depth

end NexPulse.Foundation.JsonText
