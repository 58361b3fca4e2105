import Mathlib.Data.List.Basic
import Mathlib.Data.List.Infix

/-!
# Lines and replacements in texts

A text is a list of characters.  `lines` cuts it after each line break, as
reading a file line by line does, and joining the lines gives the text back;
`mapLines` changes them one by one; `replace` substitutes the occurrences of a
text from left to right.
-/

namespace NexPulse.Foundation

abbrev Text := List Char

namespace Text

def lines : Text → List Text
  | [] => []
  | char :: rest =>
      if char = '\n' then [char] :: lines rest
      else
        match lines rest with
        | [] => [[char]]
        | line :: more => (char :: line) :: more

def Full (line : Text) : Prop := ∃ body : Text, '\n' ∉ body ∧ line = body ++ ['\n']

theorem full_iff {line : Text} :
    Full line ↔ line.getLast? = some '\n' ∧ '\n' ∉ line.dropLast := by
  constructor
  · rintro ⟨body, hbody, rfl⟩
    simp [hbody]
  · rintro ⟨hlast, hbody⟩
    exact ⟨line.dropLast, hbody, (List.dropLast_append_getLast? _ hlast).symm⟩

instance (line : Text) : Decidable (Full line) := decidable_of_iff _ full_iff.symm

/-- The lines of some text: only the last one may lack its line break. -/
def AreLines : List Text → Prop
  | [] => True
  | [line] => Full line ∨ line ≠ [] ∧ '\n' ∉ line
  | line :: next :: more => Full line ∧ AreLines (next :: more)

/-! ## Cutting and joining -/

theorem flatten_lines (text : Text) : (lines text).flatten = text := by
  induction text with
  | nil => rfl
  | cons char rest ih =>
      rw [lines]
      split
      · rw [List.flatten_cons, ih, List.singleton_append]
      · split
        · next hnone =>
            rw [hnone] at ih
            simp [← ih]
        · next line more hsome =>
            rw [hsome] at ih
            simp [← ih]

theorem full_cons {char : Char} {line : Text} (hchar : char ≠ '\n') (h : Full line) :
    Full (char :: line) := by
  obtain ⟨body, hbody, rfl⟩ := h
  exact ⟨char :: body, by simp [hchar.symm, hbody], rfl⟩

theorem areLines_lines (text : Text) : AreLines (lines text) := by
  induction text with
  | nil => trivial
  | cons char rest ih =>
      rw [lines]
      split
      · next hbreak =>
          have hfull : Full [char] := ⟨[], by simp, by simp [hbreak]⟩
          cases hrest : lines rest with
          | nil => exact .inl hfull
          | cons line more => exact ⟨hfull, hrest ▸ ih⟩
      · next hchar =>
          split
          · exact .inr ⟨by simp, by simpa [eq_comm] using hchar⟩
          · next line more hsome =>
              rw [hsome] at ih
              cases more with
              | nil =>
                  rcases ih with hfull | ⟨-, hopen⟩
                  · exact .inl (full_cons hchar hfull)
                  · exact .inr ⟨by simp, by simp [hopen, Ne.symm hchar]⟩
              | cons next more => exact ⟨full_cons hchar ih.1, ih.2⟩

theorem lines_append_open {body : Text} (hopen : '\n' ∉ body) (rest : Text) (line : Text)
    (more : List Text) (hrest : lines rest = line :: more) :
    lines (body ++ rest) = (body ++ line) :: more := by
  induction body with
  | nil => exact hrest
  | cons char body ih =>
      obtain ⟨hchar, hbody⟩ : char ≠ '\n' ∧ '\n' ∉ body := by
        simpa [eq_comm] using hopen
      rw [List.cons_append, lines, if_neg hchar, ih hbody]
      rfl

theorem lines_append_full {line : Text} (h : Full line) (rest : Text) :
    lines (line ++ rest) = line :: lines rest := by
  obtain ⟨body, hopen, rfl⟩ := h
  rw [List.append_assoc]
  exact lines_append_open hopen _ ['\n'] (lines rest) (by simp [lines])

theorem lines_of_open {line : Text} (hsome : line ≠ []) (hopen : '\n' ∉ line) :
    lines line = [line] := by
  obtain ⟨body, last, rfl⟩ := List.eq_nil_or_concat' line |>.resolve_left hsome
  have hlast : last ≠ '\n' := by
    rintro rfl
    exact hopen (by simp)
  refine lines_append_open (fun hmem => hopen (by simp [hmem])) _ [last] [] ?_
  simp [lines, hlast]

theorem lines_flatten_append {full : List Text} (h : ∀ line ∈ full, Full line) (rest : Text) :
    lines (full.flatten ++ rest) = full ++ lines rest := by
  induction full with
  | nil => rfl
  | cons line full ih =>
      obtain ⟨hline, hfull⟩ := List.forall_mem_cons.mp h
      rw [List.flatten_cons, List.append_assoc, lines_append_full hline, ih hfull, List.cons_append]

theorem lines_flatten {list : List Text} (h : AreLines list) : lines list.flatten = list := by
  induction list with
  | nil => rfl
  | cons line more ih =>
      cases more with
      | nil =>
          rw [List.flatten_singleton]
          rcases h with hfull | ⟨hsome, hopen⟩
          · have := lines_append_full hfull []
            rwa [List.append_nil] at this
          · exact lines_of_open hsome hopen
      | cons next more =>
          rw [List.flatten_cons, lines_append_full h.1, ih h.2]

/-! ## Parts of the lines of a text -/

section AreLines

variable {front tail : List Text}

theorem areLines_append (hsome : tail ≠ []) :
    AreLines (front ++ tail) ↔ (∀ line ∈ front, Full line) ∧ AreLines tail := by
  induction front with
  | nil => simp
  | cons line front ih =>
      have hne : front ++ tail ≠ [] := by simp [hsome]
      obtain ⟨next, more, hmore⟩ := List.exists_cons_of_ne_nil hne
      rw [List.cons_append, hmore, AreLines, ← hmore, ih, List.forall_mem_cons, and_assoc]

theorem ne_nil_of_full {line : Text} (h : Full line) : line ≠ [] := by
  obtain ⟨body, -, rfl⟩ := h
  simp

theorem AreLines.ne_nil {list : List Text} (h : AreLines list) : ∀ line ∈ list, line ≠ [] := by
  induction list with
  | nil => simp
  | cons line more ih =>
      cases more with
      | nil =>
          rw [List.forall_mem_singleton]
          rcases h with hfull | ⟨hsome, -⟩
          · exact ne_nil_of_full hfull
          · exact hsome
      | cons next more =>
          exact List.forall_mem_cons.mpr ⟨ne_nil_of_full h.1, ih h.2⟩

end AreLines

theorem Full.eq_of_append {first second rest more : Text} (hfirst : Full first)
    (hsecond : Full second) (h : first ++ rest = second ++ more) : first = second := by
  have hlines := congrArg lines h
  rw [lines_append_full hfirst, lines_append_full hsecond] at hlines
  exact (List.cons.inj hlines).1

/-! ## Texts of whole lines -/

def Closed (text : Text) : Prop := ∀ line ∈ lines text, Full line

theorem lines_append {first : Text} (h : Closed first) (second : Text) :
    lines (first ++ second) = lines first ++ lines second := by
  have hcut := lines_flatten_append h second
  rwa [flatten_lines] at hcut

theorem closed_append {first second : Text} (hfirst : Closed first) (hsecond : Closed second) :
    Closed (first ++ second) := by
  intro line hline
  rw [lines_append hfirst, List.mem_append] at hline
  exact hline.elim (hfirst line) (hsecond line)

theorem closed_of_full {line : Text} (h : Full line) : Closed line := by
  have hline : lines line = [line] := by
    have hcut := @lines_flatten [line] (.inl h)
    rwa [List.flatten_singleton] at hcut
  rw [Closed, hline, List.forall_mem_singleton]
  exact h

theorem closed_append_break (text : Text) : Closed (text ++ ['\n']) := by
  induction text with
  | nil =>
      rw [Closed, List.nil_append, lines, if_pos rfl, lines, List.forall_mem_singleton]
      exact ⟨[], by simp, rfl⟩
  | cons char text ih =>
      rw [Closed, List.cons_append, lines]
      split
      · next hbreak =>
          exact List.forall_mem_cons.mpr ⟨⟨[], by simp, by simp [hbreak]⟩, ih⟩
      · next hchar =>
          cases hcut : lines (text ++ ['\n']) with
          | nil =>
              have hnone := flatten_lines (text ++ ['\n'])
              simp [hcut] at hnone
          | cons line more =>
              rw [Closed, hcut] at ih
              obtain ⟨hline, hmore⟩ := List.forall_mem_cons.mp ih
              exact List.forall_mem_cons.mpr ⟨full_cons hchar hline, hmore⟩

theorem closed_flatten {pieces : List Text} (h : ∀ piece ∈ pieces, Closed piece) :
    Closed pieces.flatten := by
  induction pieces with
  | nil => simp [Closed, lines]
  | cons piece pieces ih =>
      obtain ⟨hpiece, hpieces⟩ := List.forall_mem_cons.mp h
      exact closed_append hpiece (ih hpieces)

/-! ## Changing the lines -/

def mapLines (f : Text → Text) (text : Text) : Text := ((lines text).map f).flatten

section MapLines

variable {f : Text → Text} {text first second : Text} {list pieces : List Text}

theorem AreLines.map (h : AreLines list) (hfull : ∀ line ∈ list, Full line → Full (f line))
    (hopen : ∀ line ∈ list, line ≠ [] → '\n' ∉ line →
      Full (f line) ∨ f line ≠ [] ∧ '\n' ∉ f line) : AreLines (list.map f) := by
  induction list with
  | nil => trivial
  | cons line more ih =>
      obtain ⟨hline, hmore⟩ := List.forall_mem_cons.mp hfull
      cases more with
      | nil =>
          rcases h with hwhole | ⟨hsome, hpart⟩
          · exact .inl (hline hwhole)
          · exact hopen line List.mem_cons_self hsome hpart
      | cons next more =>
          refine ⟨hline h.1, ih h.2 hmore fun other hother => ?_⟩
          exact hopen other (List.mem_cons_of_mem _ hother)

theorem mapLines_append (h : Closed first) (second : Text) :
    mapLines f (first ++ second) = mapLines f first ++ mapLines f second := by
  rw [mapLines, lines_append h, List.map_append, List.flatten_append]
  rfl

theorem mapLines_flatten (h : ∀ piece ∈ pieces, Closed piece) :
    mapLines f pieces.flatten = (pieces.map (mapLines f)).flatten := by
  induction pieces with
  | nil => rfl
  | cons piece pieces ih =>
      obtain ⟨hpiece, hpieces⟩ := List.forall_mem_cons.mp h
      rw [List.flatten_cons, mapLines_append hpiece, ih hpieces]
      rfl

theorem mapLines_of_full (h : Full text) : mapLines f text = f text := by
  have hline : lines text = [text] := by
    have hcut := @lines_flatten [text] (.inl h)
    rwa [List.flatten_singleton] at hcut
  rw [mapLines, hline, List.map_singleton, List.flatten_singleton]

end MapLines

/-! ## Replacing -/

/-- `replace` where the next `skip` characters belong to an occurrence already replaced. -/
def replaceAfter (old new : Text) : Nat → Text → Text
  | _, [] => []
  | skip + 1, _ :: rest => replaceAfter old new skip rest
  | 0, char :: rest =>
      if old <+: char :: rest then new ++ replaceAfter old new (old.length - 1) rest
      else char :: replaceAfter old new 0 rest

/-- Each occurrence of `old`, from left to right, becomes `new`. -/
def replace (old new text : Text) : Text := replaceAfter old new 0 text

section Replace

variable {old new text marker : Text} {char : Char} {skip : Nat}

theorem replaceAfter_drop (old new : Text) (text : Text) (h : skip ≤ text.length) :
    replaceAfter old new skip text = replace old new (text.drop skip) := by
  induction text generalizing skip with
  | nil => cases skip <;> rfl
  | cons first text ih =>
      cases skip with
      | zero => rfl
      | succ skip => exact ih (Nat.le_of_succ_le_succ h)

theorem replace_start (hold : old ≠ []) (rest : Text) :
    replace old new (old ++ rest) = new ++ replace old new rest := by
  obtain ⟨first, more, rfl⟩ := List.exists_cons_of_ne_nil hold
  have hstart : first :: more <+: first :: (more ++ rest) := ⟨rest, rfl⟩
  rw [replace, List.cons_append, replaceAfter, if_pos hstart,
    replaceAfter_drop _ _ _ (by simp)]
  simp

theorem replace_cons (h : ¬ old <+: char :: text) :
    replace old new (char :: text) = char :: replace old new text := by
  rw [replace, replaceAfter, if_neg h, replace]

@[elab_as_elim]
theorem occurrence_induction {motive : Text → Prop} (hold : old ≠ []) (nil : motive [])
    (occurrence : ∀ rest, motive rest → motive (old ++ rest))
    (cons : ∀ char rest, ¬ old <+: char :: rest → motive rest → motive (char :: rest))
    (text : Text) : motive text := by
  induction hlength : text.length using Nat.strong_induction_on generalizing text with
  | _ length ih =>
      cases text with
      | nil => exact nil
      | cons char text =>
          by_cases hstart : old <+: char :: text
          · obtain ⟨rest, hrest⟩ := hstart
            rw [← hrest]
            refine occurrence rest (ih rest.length ?_ rest rfl)
            have hsum := congrArg List.length hrest
            have := List.length_pos_iff.mpr hold
            rw [List.length_append] at hsum
            omega
          · exact cons char text hstart (ih text.length (by simp [← hlength]) text rfl)

theorem replace_ne_nil (hold : old ≠ []) (hnew : new ≠ []) (htext : text ≠ []) :
    replace old new text ≠ [] := by
  induction text using occurrence_induction hold with
  | nil => contradiction
  | occurrence rest ih =>
      rw [replace_start hold]
      simp [hnew]
  | cons char rest hstart ih =>
      rw [replace_cons hstart]
      exact List.cons_ne_nil _ _

theorem prefix_of_prefix_append_cons {rest : Text} (h : old <+: text ++ char :: rest)
    (hchar : char ∉ old) : old <+: text := by
  have hnext : text ++ [char] <+: text ++ char :: rest := ⟨rest, by simp⟩
  rcases List.prefix_or_prefix_of_prefix h hnext with hinside | ⟨more, hover⟩
  · rcases List.prefix_concat_iff.mp hinside with rfl | hprefix
    · simp at hchar
    · exact hprefix
  · rw [← hover] at hchar
    simp at hchar

theorem replace_append_cons (hold : old ≠ []) (hchar : char ∉ old) (text rest : Text) :
    replace old new (text ++ char :: rest) =
      replace old new text ++ char :: replace old new rest := by
  induction text using occurrence_induction hold with
  | nil =>
      refine replace_cons fun hstart => hold ?_
      exact List.prefix_nil.mp (@prefix_of_prefix_append_cons old [] char rest hstart hchar)
  | occurrence more ih =>
      rw [List.append_assoc, replace_start hold, replace_start hold, ih, List.append_assoc]
  | cons first more hstart ih =>
      have hlong : ¬ old <+: first :: (more ++ char :: rest) := fun hprefix =>
        hstart (prefix_of_prefix_append_cons hprefix hchar)
      rw [List.cons_append, replace_cons hlong, replace_cons hstart, ih, List.cons_append]

theorem mem_replace (hold : old ≠ []) (h : char ∈ replace old new text) :
    char ∈ new ∨ char ∈ text := by
  induction text using occurrence_induction hold with
  | nil => exact absurd h List.not_mem_nil
  | occurrence rest ih =>
      rw [replace_start hold, List.mem_append] at h
      rcases h with hnew | hrest
      · exact .inl hnew
      · exact (ih hrest).imp_right (List.mem_append_right _)
  | cons first rest hstart ih =>
      rw [replace_cons hstart] at h
      rcases List.mem_cons.mp h with rfl | hrest
      · exact .inr List.mem_cons_self
      · exact (ih hrest).imp_right (List.mem_cons_of_mem _)

theorem Full.replace (h : Full text) (hold : old ≠ []) (holdOpen : '\n' ∉ old)
    (hnewOpen : '\n' ∉ new) : Full (replace old new text) := by
  obtain ⟨body, hbody, rfl⟩ := h
  refine ⟨Text.replace old new body, fun hmem => ?_, replace_append_cons hold holdOpen body []⟩
  rcases mem_replace hold hmem with hnew | hkept
  · exact hnewOpen hnew
  · exact hbody hkept

/-! ## What a replacement keeps -/

/-- Two texts that could start at the same place of one text. -/
def Compatible (first second : Text) : Prop := first <+: second ∨ second <+: first

instance (first second : Text) : Decidable (Compatible first second) :=
  inferInstanceAs (Decidable (_ ∨ _))

theorem compatible_of_start {first second : Text} (hfirst : first <+: text)
    (hsecond : second <+: text) : Compatible first second :=
  List.prefix_or_prefix_of_prefix hfirst hsecond

def Apart (marker old : Text) : Prop :=
  (∀ tail ∈ marker.tails, tail ≠ [] → ¬ Compatible tail old) ∧
    ∀ tail ∈ old.tails, tail ≠ [] → ¬ Compatible tail marker

instance (marker old : Text) : Decidable (Apart marker old) :=
  inferInstanceAs (Decidable (_ ∧ _))

theorem prefix_replace (hapart : ∀ tail ∈ marker.tails, tail ≠ [] → ¬ Compatible tail old)
    (h : marker <+: text) : marker <+: replace old new text := by
  induction marker generalizing text with
  | nil => exact List.nil_prefix
  | cons char marker ih =>
      obtain ⟨rest, rfl⟩ := h
      have hstart : ¬ old <+: char :: marker ++ rest := fun hprefix =>
        hapart (char :: marker) (by simp) (List.cons_ne_nil _ _)
          (compatible_of_start ⟨rest, rfl⟩ hprefix)
      rw [List.cons_append] at hstart ⊢
      rw [replace_cons hstart]
      refine List.cons_prefix_cons.mpr ⟨rfl, ih (fun tail htail => hapart tail ?_) ⟨rest, rfl⟩⟩
      rw [List.tails, List.mem_cons]
      exact .inr htail

theorem prefix_of_prefix_replace (hold : old ≠ []) {start : Text}
    (hnew : ∀ char ∈ start, ¬ [char] <+: new) (hsome : new ≠ [])
    (h : start <+: replace old new text) : start <+: text := by
  induction start generalizing text with
  | nil => exact List.nil_prefix
  | cons first start ih =>
      obtain ⟨hfirst, hrest⟩ := List.forall_mem_cons.mp hnew
      cases text with
      | nil => exact h
      | cons char text =>
          by_cases hstart : old <+: char :: text
          · obtain ⟨more, hmore⟩ := hstart
            obtain ⟨head, tail, rfl⟩ := List.exists_cons_of_ne_nil hsome
            rw [← hmore, replace_start hold, List.cons_append, List.cons_prefix_cons] at h
            exact absurd ⟨tail, by simp [h.1]⟩ hfirst
          · rw [replace_cons hstart, List.cons_prefix_cons] at h
            exact List.cons_prefix_cons.mpr ⟨h.1, ih hrest h.2⟩

theorem infix_of_infix_append (h : marker <:+: old ++ text)
    (hapart : ∀ tail ∈ old.tails, tail ≠ [] → ¬ Compatible tail marker) :
    marker <:+: text := by
  induction old with
  | nil => exact h
  | cons char old ih =>
      rcases List.infix_cons_iff.mp h with hstart | hinside
      · exact absurd (compatible_of_start ⟨text, rfl⟩ hstart)
          (hapart (char :: old) (by simp) (List.cons_ne_nil _ _))
      · refine ih hinside fun tail htail => hapart tail ?_
        rw [List.tails, List.mem_cons]
        exact .inr htail

theorem infix_replace (hold : old ≠ []) (hapart : Apart marker old) (h : marker <:+: text) :
    marker <:+: replace old new text := by
  induction text using occurrence_induction hold with
  | nil => exact h
  | occurrence rest ih =>
      rw [replace_start hold]
      exact (ih (infix_of_infix_append h hapart.2)).trans (List.suffix_append _ _).isInfix
  | cons char rest hstart ih =>
      rcases List.infix_cons_iff.mp h with hprefix | hinside
      · exact (prefix_replace hapart.1 hprefix).isInfix
      · rw [replace_cons hstart]
        exact (ih hinside).trans (List.suffix_cons _ _).isInfix

/-! ## What a replacement changes -/

def Differ (first second : Text) : Prop :=
  ∃ common firstChar secondChar firstRest secondRest, firstChar ≠ secondChar ∧
    first = common ++ firstChar :: firstRest ∧ second = common ++ secondChar :: secondRest

theorem Differ.append {first second : Text} (h : Differ first second)
    (firstMore secondMore : Text) : Differ (first ++ firstMore) (second ++ secondMore) := by
  obtain ⟨common, firstChar, secondChar, firstRest, secondRest, hne, rfl, rfl⟩ := h
  exact ⟨common, firstChar, secondChar, firstRest ++ firstMore, secondRest ++ secondMore, hne,
    by simp, by simp⟩

theorem Differ.append_left {first second : Text} (h : Differ first second) (common : Text) :
    Differ (common ++ first) (common ++ second) := by
  obtain ⟨more, firstChar, secondChar, firstRest, secondRest, hne, rfl, rfl⟩ := h
  exact ⟨common ++ more, firstChar, secondChar, firstRest, secondRest, hne, by simp, by simp⟩

theorem Differ.ne {first second : Text} (h : Differ first second) : first ≠ second := by
  obtain ⟨common, firstChar, secondChar, firstRest, secondRest, hne, rfl, rfl⟩ := h
  intro heq
  exact hne (List.cons.inj (List.append_cancel_left heq)).1

theorem differ_replace (hold : old ≠ []) (hdiffer : Differ new old) (h : old <:+: text) :
    Differ (replace old new text) text := by
  induction text using occurrence_induction hold with
  | nil => exact absurd (List.infix_nil.mp h) hold
  | occurrence rest ih =>
      rw [replace_start hold]
      exact hdiffer.append _ _
  | cons char rest hstart ih =>
      rw [replace_cons hstart]
      exact (ih ((List.infix_cons_iff.mp h).resolve_left hstart)).append_left [char]

end Replace

end Text

end NexPulse.Foundation
