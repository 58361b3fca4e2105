import NexPulse.Foundation.Fixed
import NexPulse.Foundation.JsonText

/-!
# JSON texts in other layouts

Programs that put their JSON together by hand leave spaces after commas and
colons, and write strings as they stand.  The reader takes such a text item by
item.
-/

namespace NexPulse.Foundation.JsonText

open NexPulse.Foundation.Numeral

/-! ## Strings as they stand -/

def Plain (text : Text) : Prop := text.flatMap escape = text

instance (text : Text) : Decidable (Plain text) := inferInstanceAs (Decidable (_ = _))

theorem Plain.append {first second : Text} (hfirst : Plain first) (hsecond : Plain second) :
    Plain (first ++ second) := by
  rw [Plain, List.flatMap_append, hfirst, hsecond]

theorem plain_of_forall {text : Text} (h : ∀ char ∈ text, escape char = [char]) : Plain text := by
  induction text with
  | nil => rfl
  | cons char text ih =>
      obtain ⟨hchar, hmore⟩ := List.forall_mem_cons.mp h
      rw [Plain, List.flatMap_cons, hchar, ih hmore, List.singleton_append]

theorem string_plain {text : Text} (h : Plain text) (rest : List Rune) :
    string (runes text ++ some '"' :: rest) = some (runes text, rest) := by
  have hread := string_write text rest
  rwa [h] at hread

/-! ## Items one by one -/

section Items

variable {Item : Type} {item : Reader Item} {closing : Char} {text rest : List Rune} {one : Item}

def Blank (gap : Text) : Prop := ∀ char ∈ gap, isSpace (some char)

theorem skipSpace_gap {gap : Text} (hgap : Blank gap) (rest : List Rune) :
    skipSpace (runes gap ++ rest) = skipSpace rest := by
  induction gap with
  | nil => rfl
  | cons char gap ih =>
      obtain ⟨hchar, hmore⟩ := List.forall_mem_cons.mp hgap
      rw [runes_cons, List.cons_append, skipSpace, List.dropWhile_cons_of_pos hchar]
      exact ih hmore

theorem items_of_le {steps enough : Nat} {result : List Item} (hle : steps ≤ enough)
    (h : items item closing steps text = some (result, rest)) :
    items item closing enough text = some (result, rest) := by
  induction steps generalizing enough text rest result with
  | zero => contradiction
  | succ steps ih =>
      obtain ⟨enough, rfl⟩ := Nat.exists_eq_succ_of_ne_zero (Nat.ne_zero_of_lt hle)
      rw [items] at h ⊢
      obtain ⟨⟨first, following⟩, hfirst, h⟩ := Option.bind_eq_some_iff.mp h
      rw [hfirst, Option.bind_eq_bind, Option.bind_some]
      dsimp only at h ⊢
      split at h
      · split at h
        · next hcomma =>
            obtain ⟨⟨more, after⟩, hmore, h⟩ := Option.bind_eq_some_iff.mp h
            rw [if_pos hcomma, ih (Nat.le_of_succ_le_succ hle) hmore]
            exact h
        · next hcomma =>
            rw [if_neg hcomma]
            exact h
      · contradiction

theorem items_more {steps : Nat} {more : List Item} {others : List Rune}
    (hone : item (skipSpace text) = some (one, some ',' :: others))
    (hmore : items item closing steps others = some (more, rest)) :
    items item closing (steps + 1) text = some (one :: more, rest) := by
  have hcomma := @skipSpace_mark ',' (by simp) others
  rw [items, hone]
  simp only [Option.bind_eq_bind, Option.bind_some, hcomma, if_pos, hmore]
  rfl

theorem items_last (hclosing : closing ∈ [']', '}']) (steps : Nat)
    (hone : item (skipSpace text) = some (one, some closing :: rest)) :
    items item closing (steps + 1) text = some ([one], rest) := by
  have hmark : closing ∈ [',', ']', '}', ':'] :=
    List.mem_cons_of_mem _ (List.mem_append_left [':'] hclosing)
  have hcomma : closing ≠ ',' := by
    rintro rfl
    exact absurd hclosing (by decide)
  have hspace := skipSpace_mark hmark rest
  rw [items, hone]
  simp [hspace, hcomma]

theorem elements_of_items {steps : Nat} {result : List Item}
    (hitems : items item closing steps text = some (result, rest))
    (hopen : (skipSpace text).head? ≠ some (some closing)) (hsteps : steps ≤ text.length) :
    elements item closing text = some (result, rest) := by
  rw [elements, if_neg hopen]
  exact items_of_le hsteps hitems

theorem field_gap {value : Reader Item} {key gap : Text} {content : List Rune}
    (hkey : Plain key) (hgap : Blank gap)
    (hvalue : value (skipSpace content) = some (one, rest)) :
    field value (runes ('"' :: (key ++ '"' :: ':' :: gap)) ++ content) =
      some ((runes key, one), rest) := by
  have hcut : runes ('"' :: (key ++ '"' :: ':' :: gap)) ++ content =
      some '"' :: (runes key ++ some '"' :: some ':' :: (runes gap ++ content)) := by
    simp [runes]
  have hcolon := @skipSpace_mark ':' (by simp) (runes gap ++ content)
  rw [hcut, field, string_plain hkey]
  simp only [Option.bind_eq_bind, Option.bind_some, hcolon, skipSpace_gap hgap, hvalue]
  rfl

end Items

/-! ## Values -/

section Values

variable {rest : List Rune}

theorem value_plain {text : Text} (h : Plain text) (depth : Nat) (rest : List Rune) :
    value depth (skipSpace (some '"' :: (runes text ++ some '"' :: rest))) =
      some (.string (runes text), rest) := by
  have hspace : skipSpace (some '"' :: (runes text ++ some '"' :: rest)) =
      some '"' :: (runes text ++ some '"' :: rest) :=
    skipSpace_of_not (by decide) _
  refine value_of_scalar ?_
  rw [hspace, value.scalar, List.head?_cons, List.tail_cons, string_plain h]
  rfl

theorem value_number {number : Rat → Text} {f : Rat → Rat} {x : Rat} (h : ReadsAs number f x)
    (depth : Nat) (hrest : Stops rest) :
    value depth (skipSpace (runes (number x) ++ rest)) = some (.number (f x), rest) := by
  obtain ⟨char, more, htext, hchar⟩ := h.starts
  have hall : Numeral.starts ⊆ starts := by decide
  rw [skipSpace_starts ⟨char, more, htext, hall hchar⟩]
  exact value_of_scalar (scalar_number h hrest)

theorem parse_of_write {number : Rat → Text} {f : Rat → Rat} {depth : Nat} {tree : Tree}
    (hdepth : tree.Within depth) (hformed : tree.WellFormed)
    (hnumbers : tree.Numbers (ReadsAs number f)) :
    parse depth (runes (write number tree)) = some (tree.mapNumbers f) := by
  have hread := value_write depth tree hdepth hformed hnumbers (by simp [Stops] : Stops [])
  have hspace := skipSpace_starts (starts_write tree hnumbers) []
  rw [List.append_nil] at hread hspace
  rw [parse, hspace, hread]
  rfl

end Values

theorem plain_decimalVerb (n : Int) : Plain (decimalVerb n) := by
  have hall : Numeral.starts.all fun char => escape char = [char] := by decide
  exact plain_of_forall fun char hchar =>
    of_decide_eq_true (List.all_eq_true.mp hall char (mem_starts_of_mem_decimalVerb hchar))

end NexPulse.Foundation.JsonText
