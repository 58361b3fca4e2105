import Mathlib.Data.List.Forall2
import Mathlib.Data.List.TakeWhile
import NexPulse.Dashboard.Restructure

/-!
# Populating the map

`populate_map.py` replaces the lines of `generate_dashboard.py` that set
`geomap_expr` by one that sets it to an expression for all its cities.  Whatever
the file is, the other lines stay, what Python reads from the new ones is the
expression, and the script can be run again; it can be run before or after each
of the other scripts.
-/

namespace NexPulse.Dashboard

open NexPulse.Foundation
open NexPulse.Foundation.Slices
open NexPulse.Foundation.Text

/-! ## populate_map.py -/

structure City where
  name : String
  -- In hundredths of a degree.
  lat : Int
  lon : Int
  val : Nat

def cities : List City :=
  [⟨"New York", 4071, -7400, 150⟩, ⟨"Los Angeles", 3405, -11824, 120⟩,
   ⟨"San Francisco", 3777, -12241, 140⟩, ⟨"Chicago", 4187, -8762, 90⟩,
   ⟨"Toronto", 4365, -7938, 85⟩, ⟨"Vancouver", 4928, -12312, 60⟩,
   ⟨"Mexico City", 1943, -9913, 110⟩, ⟨"Miami", 2576, -8019, 75⟩, ⟨"Dallas", 3277, -9679, 80⟩,
   ⟨"Seattle", 4760, -12233, 95⟩, ⟨"London", 5150, -12, 160⟩, ⟨"Paris", 4885, 235, 130⟩,
   ⟨"Berlin", 5252, 1340, 110⟩, ⟨"Madrid", 4041, -370, 90⟩, ⟨"Rome", 4190, 1249, 80⟩,
   ⟨"Amsterdam", 5236, 490, 140⟩, ⟨"Frankfurt", 5011, 868, 180⟩, ⟨"Stockholm", 5932, 1806, 60⟩,
   ⟨"Moscow", 5575, 3761, 70⟩, ⟨"Dublin", 5334, -626, 85⟩, ⟨"Tokyo", 3568, 13969, 170⟩,
   ⟨"Seoul", 3756, 12697, 130⟩, ⟨"Beijing", 3990, 11640, 150⟩, ⟨"Shanghai", 3123, 12147, 160⟩,
   ⟨"Hong Kong", 2231, 11416, 140⟩, ⟨"Mumbai", 1907, 7287, 120⟩, ⟨"Delhi", 2870, 7710, 110⟩,
   ⟨"Bangalore", 1297, 7759, 135⟩, ⟨"Singapore", 135, 10381, 190⟩, ⟨"Bangkok", 1375, 10050, 90⟩,
   ⟨"Jakarta", -620, 10681, 100⟩, ⟨"Dubai", 2520, 5527, 115⟩, ⟨"Sao Paulo", -2355, -4663, 130⟩,
   ⟨"Buenos Aires", -3460, -5838, 80⟩, ⟨"Bogota", 471, -7407, 70⟩, ⟨"Lima", -1204, -7702, 65⟩,
   ⟨"Santiago", -3344, -7066, 75⟩, ⟨"Lagos", 652, 337, 95⟩, ⟨"Cairo", 3004, 3123, 85⟩,
   ⟨"Johannesburg", -2620, 2804, 90⟩, ⟨"Nairobi", -129, 3682, 60⟩, ⟨"Cape Town", -3392, 1842, 75⟩,
   ⟨"Sydney", -3386, 15120, 110⟩, ⟨"Melbourne", -3781, 14496, 95⟩, ⟨"Auckland", -3684, 17476, 60⟩,
   ⟨"Brisbane", -2746, 15302, 50⟩]

/-- A float with two decimals as an f-string writes it. -/
def degrees (hundredths : Int) : Text :=
  let tenths := hundredths.natAbs % 100 / 10
  let last := hundredths.natAbs % 10
  (if hundredths < 0 then ['-'] else []) ++ Nat.toDigits 10 (hundredths.natAbs / 100) ++
    '.' :: Nat.toDigits 10 tenths ++ if last = 0 then [] else Nat.toDigits 10 last

def query (city : City) : Text :=
  "label_replace(label_replace(label_replace(vector(".toList ++ Nat.toDigits 10 city.val ++
    "), \"city\", \"".toList ++ city.name.toList ++ "\", \"\", \"\"), \"lat\", \"".toList ++
    degrees city.lat ++ "\", \"\", \"\"), \"lon\", \"".toList ++ degrees city.lon ++
    "\", \"\", \"\")".toList

def finalExpr : Text := List.intercalate " or ".toList (cities.map query)

def geomapStart : Text := "geomap_expr = ".toList

def setsGeomap (line : Text) : Bool := decide (geomapStart <+: strip line)

/-- `line[:len(line) - len(line.lstrip())]` -/
def indent (line : Text) : Text := line.takeWhile isSpace

def assignment : Text := geomapStart ++ '\x27' :: (finalExpr ++ ['\x27', '\n'])

def populateLine (line : Text) : Text :=
  if setsGeomap line then indent line ++ assignment else line

def populateMap (content : Text) : Text := mapLines populateLine content

/-! ## What Python reads -/

/-- The rest of a literal in single quotes, without escapes. -/
def literal : Text → Option Text
  | [] => none
  | char :: rest =>
      if char = '\x27' then some []
      else if char = '\\' ∨ char = '\n' then none
      else (literal rest).map (char :: ·)

/-- The text that a line sets `geomap_expr` to. -/
def assigned (line : Text) : Option Text :=
  match (line.dropWhile isSpace).drop geomapStart.length with
  | '\x27' :: rest => literal rest
  | _ => none

theorem literal_append {text : Text} (h : ∀ char ∈ text, char ≠ '\x27' ∧ char ≠ '\\' ∧ char ≠ '\n')
    (rest : Text) : literal (text ++ '\x27' :: rest) = some text := by
  induction text with
  | nil => rfl
  | cons char text ih =>
      obtain ⟨⟨hquote, hescape, hbreak⟩, hmore⟩ := List.forall_mem_cons.mp h
      rw [List.cons_append, literal, if_neg hquote, if_neg (by simp [hescape, hbreak]), ih hmore]
      rfl

/-! ## The characters of the expression -/

theorem mem_intercalate {separator : Text} {pieces : List Text} {char : Char}
    (h : char ∈ List.intercalate separator pieces) :
    char ∈ separator ∨ ∃ piece ∈ pieces, char ∈ piece := by
  induction pieces with
  | nil => simp at h
  | cons piece pieces ih =>
      cases pieces with
      | nil => exact .inr ⟨piece, List.mem_cons_self, by simpa using h⟩
      | cons next more =>
          rw [List.intercalate_cons_cons, List.mem_append, List.mem_append] at h
          rcases h with (hpiece | hseparator) | hrest
          · exact .inr ⟨piece, List.mem_cons_self, hpiece⟩
          · exact .inl hseparator
          · refine (ih hrest).imp_right fun ⟨other, hother, hchar⟩ => ?_
            exact ⟨other, List.mem_cons_of_mem _ hother, hchar⟩

def foreign : Text := "#&\x7b+\x27\\\n".toList

def plain (text : Text) : Bool := text.all fun char => char ∉ foreign

theorem not_mem_foreign {text : Text} {char : Char} (h : plain text) (hchar : char ∈ text) :
    char ∉ foreign :=
  of_decide_eq_true (List.all_eq_true.mp h char hchar)

theorem query_checked : ∀ city ∈ cities,
    plain (query city) ∧ ¬ withOpen <:+: query city ∧ [')'] <:+ query city := by
  decide +kernel

theorem finalExpr_plain {char : Char} (h : char ∈ finalExpr) : char ∉ foreign := by
  rcases mem_intercalate h with hseparator | ⟨piece, hpiece, hchar⟩
  · exact not_mem_foreign (by decide) hseparator
  · obtain ⟨city, hcity, rfl⟩ := List.mem_map.mp hpiece
    exact not_mem_foreign (query_checked city hcity).1 hchar

/-! ## One line -/

section Line

variable {line : Text}

theorem isSpace_of_mem_indent {char : Char} (h : char ∈ indent line) : isSpace char = true :=
  List.mem_takeWhile_imp h

theorem indent_append (line : Text) : indent line ++ line.dropWhile isSpace = line :=
  List.takeWhile_append_dropWhile

theorem dropWhile_blank {front : Text} (h : ∀ char ∈ front, isSpace char = true) (rest : Text) :
    (front ++ (geomapStart ++ rest)).dropWhile isSpace = geomapStart ++ rest := by
  rw [List.dropWhile_append, List.dropWhile_eq_nil_iff.mpr h]
  rfl

theorem setsGeomap_iff : setsGeomap line ↔ ∃ rest,
    line.dropWhile isSpace = geomapStart ++ rest ∧ ∃ char ∈ rest, isSpace char = false := by
  have hstrip {rest : Text} (hline : line.dropWhile isSpace = geomapStart ++ rest) :
      strip line = if (rest.reverse.dropWhile isSpace).isEmpty then "geomap_expr =".toList
        else geomapStart ++ (rest.reverse.dropWhile isSpace).reverse := by
    have hstart : (geomapStart.reverse.dropWhile isSpace).reverse = "geomap_expr =".toList := by
      decide
    rw [strip, hline, List.reverse_append, List.dropWhile_append]
    split
    · exact hstart
    · rw [List.reverse_append, List.reverse_reverse]
  have hempty (rest : Text) : (rest.reverse.dropWhile isSpace).isEmpty ↔
      ¬ ∃ char ∈ rest, isSpace char = false := by
    simp [List.dropWhile_eq_nil_iff]
  rw [setsGeomap, decide_eq_true_iff]
  constructor
  · intro hprefix
    have hwithin : strip line <+: line.dropWhile isSpace := by
      obtain ⟨more, hmore⟩ := List.dropWhile_suffix isSpace (l := (line.dropWhile isSpace).reverse)
      refine ⟨more.reverse, ?_⟩
      rw [strip, ← List.reverse_append, hmore, List.reverse_reverse]
    obtain ⟨rest, hrest⟩ := hprefix.trans hwithin
    refine ⟨rest, hrest.symm, ?_⟩
    by_contra hnone
    rw [hstrip hrest.symm, if_pos ((hempty rest).mpr hnone)] at hprefix
    exact absurd hprefix (by decide)
  · rintro ⟨rest, hline, hsome⟩
    rw [hstrip hline, if_neg fun hnone => (hempty rest).mp hnone hsome]
    exact List.prefix_append _ _

theorem dropWhile_populated (line : Text) :
    (indent line ++ assignment).dropWhile isSpace = assignment :=
  dropWhile_blank (fun _ => isSpace_of_mem_indent) _

theorem setsGeomap_populated (line : Text) : setsGeomap (indent line ++ assignment) := by
  refine setsGeomap_iff.mpr ⟨_, dropWhile_populated line, '\x27', ?_, by decide⟩
  exact List.mem_cons_self

theorem populateLine_of_sets (h : setsGeomap line) :
    populateLine line = indent line ++ assignment :=
  if_pos h

theorem populateLine_of_not (h : ¬ setsGeomap line) : populateLine line = line :=
  if_neg h

theorem setsGeomap_populateLine (h : setsGeomap line) : setsGeomap (populateLine line) := by
  rw [populateLine_of_sets h]
  exact setsGeomap_populated line

theorem assigned_populateLine (h : setsGeomap line) :
    assigned (populateLine line) = some finalExpr := by
  have hplain : ∀ char ∈ finalExpr, char ≠ '\x27' ∧ char ≠ '\\' ∧ char ≠ '\n' := by
    intro char hchar
    refine ⟨?_, ?_, ?_⟩ <;> rintro rfl <;> exact absurd (finalExpr_plain hchar) (by decide)
  rw [populateLine_of_sets h, assigned, dropWhile_populated, assignment, List.drop_left]
  exact literal_append hplain _

theorem full_populated (h : setsGeomap line) (hopen : '\n' ∉ line.dropLast) :
    Full (populateLine line) := by
  obtain ⟨rest, hline, -⟩ := setsGeomap_iff.mp h
  have hindent : '\n' ∉ indent line := by
    intro hbreak
    refine hopen (List.IsPrefix.mem hbreak ?_)
    refine List.prefix_of_prefix_length_le (List.takeWhile_prefix _) (List.dropLast_prefix _) ?_
    have hlength := congrArg List.length (indent_append line)
    have hlong := congrArg List.length hline
    have hstart : geomapStart.length = 14 := rfl
    simp only [List.length_append, List.length_dropLast, hstart] at hlength hlong ⊢
    omega
  refine ⟨indent line ++ (geomapStart ++ '\x27' :: (finalExpr ++ ['\x27'])), ?_, ?_⟩
  · have hfixed : '\n' ∉ geomapStart := by decide
    have hexpr : '\n' ∉ finalExpr := fun hbreak => absurd (finalExpr_plain hbreak) (by decide)
    simp [hindent, hfixed, hexpr]
  · rw [populateLine_of_sets h, assignment]
    simp

end Line

/-! ## The whole file -/

theorem full_populateLine {line : Text} (h : Full line) : Full (populateLine line) := by
  by_cases hsets : setsGeomap line
  · exact full_populated hsets (full_iff.mp h).2
  · rwa [populateLine_of_not hsets]

theorem lines_populateMap (content : Text) :
    lines (populateMap content) = (lines content).map populateLine := by
  refine lines_flatten ((areLines_lines content).map ?_ ?_)
  · exact fun line _ => full_populateLine
  · intro line _ hsome hopen
    by_cases hsets : setsGeomap line
    · exact .inl (full_populated hsets fun hbreak => hopen (List.mem_of_mem_dropLast hbreak))
    · rw [populateLine_of_not hsets]
      exact .inr ⟨hsome, hopen⟩

def markers : List Text :=
  [rowOneMarker, rowTwoMarker, rowSevenMarker, rowThreeMarker, jsonDumpMarker, addRowCall,
    gridPosField, yPosStep, apiAddRowCall, withOpen]

/-- The lines that set `geomap_expr` mention no marker. -/
def Clear (content : Text) : Prop :=
  ∀ line ∈ lines content, setsGeomap line → ∀ marker ∈ markers, ¬ mentions marker line

instance (content : Text) : Decidable (Clear content) :=
  inferInstanceAs (Decidable (∀ line ∈ lines content, _ → _))

section Infix

variable {marker first rest separator : Text} {char : Char}

theorem not_infix_append_cons (hchar : char ∉ marker) (hfirst : ¬ marker <:+: first)
    (hrest : ¬ marker <:+: rest) : ¬ marker <:+: first ++ char :: rest := by
  induction first with
  | nil =>
      intro hinfix
      rcases List.infix_cons_iff.mp hinfix with hstart | hinside
      · exact hfirst (prefix_of_prefix_append_cons hstart hchar).isInfix
      · exact hrest hinside
  | cons next first ih =>
      intro hinfix
      rcases List.infix_cons_iff.mp hinfix with hstart | hinside
      · exact hfirst (prefix_of_prefix_append_cons hstart hchar).isInfix
      · exact ih (fun hwithin => hfirst (hwithin.trans (List.suffix_cons _ _).isInfix)) hinside

theorem not_infix_intercalate {pieces : List Text} (hchar : char ∉ marker) (hsome : marker ≠ [])
    (hapart : ∀ tail ∈ separator.tails, tail ≠ [] → ¬ Compatible tail marker)
    (h : ∀ piece ∈ pieces, ¬ marker <:+: piece ∧ [char] <:+ piece) :
    ¬ marker <:+: List.intercalate separator pieces := by
  induction pieces with
  | nil => simpa using hsome
  | cons piece pieces ih =>
      obtain ⟨⟨hpiece, body, rfl⟩, hpieces⟩ := List.forall_mem_cons.mp h
      cases pieces with
      | nil => simpa using hpiece
      | cons next more =>
          rw [List.intercalate_cons_cons, List.append_assoc, List.append_assoc,
            List.singleton_append]
          refine not_infix_append_cons hchar ?_ fun hinfix => ih hpieces ?_
          · exact fun hwithin => hpiece (hwithin.trans (List.prefix_append _ _).isInfix)
          · exact infix_of_infix_append hinfix hapart

end Infix

def telling : Text := "#&\x7b+\\".toList

theorem not_mem_assignment {char : Char} (h : char ∈ telling) : char ∉ assignment := by
  have hsearch : (telling.all fun char =>
      decide (char ∈ foreign) && decide (char ∉ geomapStart ++ ['\x27', '\n'])) = true := by
    decide
  have hboth := List.all_eq_true.mp hsearch char h
  simp only [Bool.and_eq_true, decide_eq_true_eq] at hboth
  obtain ⟨hforeign, hfixed⟩ := hboth
  intro hmem
  have hexpr : char ∉ finalExpr := fun hwithin => finalExpr_plain hwithin hforeign
  simp only [assignment, List.mem_append, List.mem_cons] at hmem hfixed
  tauto

theorem markers_telling : ∀ marker ∈ markers,
    marker = withOpen ∨ (marker.any fun char => char ∈ telling) = true := by
  decide

theorem not_infix_assignment {marker : Text} (h : marker ∈ markers) :
    ¬ marker <:+: assignment := by
  rcases markers_telling marker h with rfl | htelling
  · refine not_infix_append_cons (by decide) (by decide) ?_
    refine not_infix_append_cons (by decide) ?_ (by decide)
    refine @not_infix_intercalate _ _ ')' _ (by decide) (by decide) (by decide) ?_
    intro piece hpiece
    obtain ⟨city, hcity, rfl⟩ := List.mem_map.mp hpiece
    exact (query_checked city hcity).2
  · obtain ⟨char, hmarker, hchar⟩ := List.any_eq_true.mp htelling
    exact fun hwithin => not_mem_assignment (of_decide_eq_true hchar) (hwithin.subset hmarker)

theorem infix_of_infix_blank {marker front text : Text} (hsome : marker ≠ [])
    (hfront : ∀ char ∈ front, ¬ [char] <+: marker) (h : marker <:+: front ++ text) :
    marker <:+: text := by
  refine infix_of_infix_append h fun tail htail hne hcompatible => ?_
  obtain ⟨head, more, rfl⟩ := List.exists_cons_of_ne_nil hne
  obtain ⟨first, rest, rfl⟩ := List.exists_cons_of_ne_nil hsome
  have hhead : head ∈ front := ((List.mem_tails _ _).mp htail).subset List.mem_cons_self
  have hsame : head = first := by
    rcases hcompatible with hprefix | hprefix
    · exact (List.cons_prefix_cons.mp hprefix).1
    · exact (List.cons_prefix_cons.mp hprefix).1.symm
  exact hfront head hhead ⟨rest, by simp [hsame]⟩

theorem markers_start : ∀ marker ∈ markers,
    (marker.head?.any fun char => !isSpace char) = true := by
  decide

theorem not_mentions_populated {marker : Text} (h : marker ∈ markers) (line : Text) :
    mentions marker (indent line ++ assignment) = false := by
  obtain ⟨head, hhead, hblank⟩ := (Option.any_eq_true _ _).mp (markers_start marker h)
  obtain ⟨rest, rfl⟩ := List.head?_eq_some_iff.mp hhead
  refine decide_eq_false fun hinfix => not_infix_assignment h ?_
  refine infix_of_infix_blank (List.cons_ne_nil _ _) (fun char hchar hstart => ?_) hinfix
  obtain rfl : char = head := (List.cons_prefix_cons.mp hstart).1
  simp [isSpace_of_mem_indent hchar] at hblank

theorem mentions_populateLine {content marker : Text} (hclear : Clear content)
    (h : marker ∈ markers) : ∀ line ∈ lines content,
      mentions marker (populateLine line) = mentions marker line := by
  intro line hline
  by_cases hsets : setsGeomap line
  · rw [populateLine_of_sets hsets, not_mentions_populated h,
      Bool.eq_false_iff.mpr (hclear line hline hsets marker h)]
  · rw [populateLine_of_not hsets]

/-! ## What the other scripts insert -/

def kept (line : Text) : Bool := decide (Full line) && !setsGeomap line

theorem populateMap_block {block : List String} (h : ∀ line ∈ block, kept line.toList) :
    populateMap (block.flatMap String.toList) = block.flatMap String.toList := by
  have hboth (line : String) (hline : line ∈ block) :
      Full line.toList ∧ setsGeomap line.toList = false := by
    simpa [kept] using h line hline
  have hclosed : ∀ piece ∈ block.map String.toList, Closed piece := by
    intro piece hpiece
    obtain ⟨line, hline, rfl⟩ := List.mem_map.mp hpiece
    exact closed_of_full (hboth line hline).1
  rw [List.flatMap_def, populateMap, mapLines_flatten hclosed, List.map_map]
  refine congrArg List.flatten (List.map_congr_left fun line hline => ?_)
  obtain ⟨hfull, hleft⟩ := hboth line hline
  rw [Function.comp_apply, mapLines_of_full hfull, populateLine_of_not (by simp [hleft])]

-- A literal is rewritten to its characters, since evaluating it takes long.
theorem kept_inserted : ∀ line ∈ newBlockLines ++ apiCodeLines, kept line.toList := by
  unfold newBlockLines apiCodeLines
  refine List.forall_mem_append.mpr ⟨?_, ?_⟩
  all_goals
    repeat'
      refine List.forall_mem_cons.mpr ⟨?_, ?_⟩
      · repeat rw [String.toList_append]
        repeat rw [String.toList_ofList]
        decide +kernel
    exact List.forall_mem_nil _

theorem populateMap_newBlock : populateMap newBlock = newBlock :=
  populateMap_block fun line hline => kept_inserted line (List.mem_append_left _ hline)

theorem populateMap_apiCode : populateMap apiCode = apiCode :=
  populateMap_block fun line hline => kept_inserted line (List.mem_append_right _ hline)

theorem populateMap_movedHeading : populateMap movedHeading = movedHeading := by
  decide +kernel

section Scripts

variable {content : Text}

structure Populatable (content : Text) : Prop where
  closed : Closed content
  clear : Clear content

theorem populateMap_flatten {pieces : List Text} (h : ∀ piece ∈ pieces, Closed piece) :
    populateMap pieces.flatten = (pieces.map populateMap).flatten :=
  mapLines_flatten h

section Lines

variable {list : List Text} (hlist : list ⊆ lines content)
include hlist

theorem Populatable.closed_line (h : Populatable content) : ∀ line ∈ list, Closed line :=
  fun line hline => closed_of_full (h.closed line (hlist hline))

theorem Populatable.map_populateMap (h : Populatable content) :
    list.map populateMap = list.map populateLine :=
  List.map_congr_left fun line hline => mapLines_of_full (h.closed line (hlist hline))

theorem Populatable.find_populateLine (h : Populatable content) {marker : Text}
    (hmarker : marker ∈ markers) :
    find (mentions marker) (list.map populateLine) = find (mentions marker) list :=
  find_map _ _ fun line hline => mentions_populateLine h.clear hmarker line (hlist hline)

end Lines

theorem Populatable.splice (h : Populatable content) {list pieces : List Text}
    (hlist : list ⊆ lines content) (hpieces : ∀ piece ∈ pieces, Closed piece) (start stop : Int) :
    (before (list.map populateLine) start ++ pieces.map populateMap ++
        since (list.map populateLine) stop).flatten =
      populateMap (before list start ++ pieces ++ since list stop).flatten := by
  have hfront := List.Subset.trans (before_subset list start) hlist
  have htail := List.Subset.trans (since_subset list stop) hlist
  rw [populateMap_flatten, List.map_append, List.map_append, h.map_populateMap hfront,
    h.map_populateMap htail, before_map, since_map]
  intro piece hpiece
  rcases List.mem_append.mp hpiece with hpiece | hpiece
  · rcases List.mem_append.mp hpiece with hpiece | hpiece
    · exact h.closed_line hfront piece hpiece
    · exact hpieces piece hpiece
  · exact h.closed_line htail piece hpiece

theorem mergeTop_populateMap (h : Populatable content) :
    mergeTop (populateMap content) = populateMap (mergeTop content) := by
  have hfirst := h.find_populateLine (List.Subset.refl _) (by decide : rowOneMarker ∈ markers)
  have hsecond := h.find_populateLine (List.Subset.refl _) (by decide : rowTwoMarker ∈ markers)
  have hsplice := h.splice (List.Subset.refl _) (List.forall_mem_singleton.mpr closed_newBlock)
    (find (mentions rowOneMarker) (lines content)) (find (mentions rowTwoMarker) (lines content))
  rw [List.map_singleton, populateMap_newBlock] at hsplice
  simp only [mergeTop, lines_populateMap, hfirst, hsecond]
  exact hsplice

theorem collect_map {lines : List Text}
    (h : ∀ line ∈ lines, mentions jsonDumpMarker (populateLine line) = mentions jsonDumpMarker line)
    (indices : List Int) (block : List Text) :
    collect (lines.map populateLine) indices (block.map populateLine) =
      (collect lines indices block).map fun found => (found.1.map populateLine, found.2) := by
  induction indices generalizing block with
  | nil => rfl
  | cons index indices ih =>
      rw [collect, collect, item?_map]
      cases hitem : item? lines index with
      | none => rfl
      | some line =>
          have hmarker := h line (mem_of_item? _ hitem)
          have hnext := ih (block ++ [line])
          rw [List.map_append, List.map_singleton] at hnext
          by_cases hline : mentions jsonDumpMarker line
          · simp [hmarker, hline]
          · simp [hmarker, hline, hnext]

theorem collect_subset {lines block : List Text} {indices : List Int} {found : List Text × Int}
    (hblock : block ⊆ lines) (h : collect lines indices block = some found) : found.1 ⊆ lines := by
  induction indices generalizing block with
  | nil =>
      obtain rfl := Option.some.inj h
      exact hblock
  | cons index indices ih =>
      obtain ⟨line, hitem, hrest⟩ := Option.bind_eq_some_iff.mp h
      by_cases hline : mentions jsonDumpMarker line
      · rw [if_pos hline] at hrest
        obtain rfl := Option.some.inj hrest
        exact hblock
      · rw [if_neg hline] at hrest
        refine ih ?_ hrest
        exact List.append_subset.mpr ⟨hblock, by simpa using mem_of_item? _ hitem⟩

theorem setsGeomap_of_replace {old line new : Text} {head char : Char} (hold : old ≠ [])
    (hhead : isSpace head = false ∧ head ∉ geomapStart) (hchar : char ∈ line)
    (hother : isSpace char = false ∧ char ∉ geomapStart)
    (h : setsGeomap (Text.replace old (head :: new) line)) : setsGeomap line := by
  obtain ⟨rest, hrest, -⟩ := setsGeomap_iff.mp h
  have hstart : indent (Text.replace old (head :: new) line) ++ geomapStart <+:
      Text.replace old (head :: new) line := by
    refine ⟨rest, ?_⟩
    rw [List.append_assoc, ← hrest, indent_append]
  have hnew : ∀ first ∈ indent (Text.replace old (head :: new) line) ++ geomapStart,
      ¬ [first] <+: head :: new := by
    intro first hfirst hprefix
    obtain rfl : first = head := (List.cons_prefix_cons.mp hprefix).1
    rcases List.mem_append.mp hfirst with hblank | hname
    · exact absurd (isSpace_of_mem_indent hblank) (by simp [hhead.1])
    · exact hhead.2 hname
  obtain ⟨more, hmore⟩ := prefix_of_prefix_replace hold hnew (List.cons_ne_nil _ _) hstart
  have hdrop : line.dropWhile isSpace = geomapStart ++ more := by
    rw [← hmore, List.append_assoc]
    exact dropWhile_blank (fun _ => isSpace_of_mem_indent) _
  refine setsGeomap_iff.mpr ⟨more, hdrop, char, ?_, hother.1⟩
  rw [← hmore, List.mem_append, List.mem_append] at hchar
  rcases hchar with (hblank | hname) | hmem
  · exact absurd (isSpace_of_mem_indent hblank) (by simp [hother.1])
  · exact absurd hname hother.2
  · exact hmem

theorem populateMap_replace {marker old line new : Text} {head char : Char} (hold : old ≠ [])
    (hopen : '\n' ∉ old ∧ '\n' ∉ head :: new) (hhead : isSpace head = false ∧ head ∉ geomapStart)
    (hother : char ∈ marker ∧ isSpace char = false ∧ char ∉ geomapStart) (hfull : Full line)
    (hmarker : mentions marker line) (hkept : ¬ setsGeomap line) :
    populateMap (Text.replace old (head :: new) line) = Text.replace old (head :: new) line := by
  have hchar : char ∈ line := (of_decide_eq_true hmarker).subset hother.1
  rw [populateMap, mapLines_of_full (hfull.replace hold hopen.1 hopen.2)]
  refine populateLine_of_not fun hsets => hkept ?_
  exact setsGeomap_of_replace hold hhead hchar hother.2 hsets

theorem modify_map {block : List Text} (h : Populatable content) (hblock : block ⊆ lines content)
    (inBarChart : Bool) :
    modify inBarChart (block.map populateLine) = (modify inBarChart block).map populateMap := by
  induction block generalizing inBarChart with
  | nil => rfl
  | cons line block ih =>
      obtain ⟨hline, hrest⟩ := List.cons_subset.mp hblock
      have hfull := h.closed line hline
      have hadd := mentions_populateLine h.clear (by decide : addRowCall ∈ markers) line hline
      have hgrid := mentions_populateLine h.clear (by decide : gridPosField ∈ markers) line hline
      have hstep := mentions_populateLine h.clear (by decide : yPosStep ∈ markers) line hline
      have hsame : populateMap line = populateLine line := mapLines_of_full hfull
      have hkept {marker : Text} (hmarker : marker ∈ markers) (hmentions : mentions marker line) :
          ¬ setsGeomap line := fun hsets => h.clear line hline hsets marker hmarker hmentions
      rw [List.map_cons, modify, modify, hadd, hgrid, hstep]
      split
      · next hmentions =>
          have hstays := hkept (by decide) hmentions
          rw [List.map_cons, ih hrest, populateLine_of_not hstays]
          exact congrArg (· :: _) (@populateMap_replace addRowCall _ _ _ _ '&' (by decide)
            (by decide) (by decide) (by decide) hfull hmentions hstays).symm
      · split
        · next hmentions =>
            have hstays := hkept (by decide) hmentions.1
            rw [List.map_cons, ih hrest, populateLine_of_not hstays]
            exact congrArg (· :: _) (@populateMap_replace gridPosField _ _ _ _ '\x7b' (by decide)
              (by decide) (by decide) (by decide) hfull hmentions.1 hstays).symm
        · split
          · rw [List.map_cons, ih hrest, populateMap_apiCode]
          · rw [List.map_cons, ih hrest, hsame]

theorem insertBlock_map {list block : List Text} (h : Populatable content)
    (hlist : list ⊆ lines content) (hblock : ∀ piece ∈ block, Closed piece) :
    (insertBlock (list.map populateLine) (block.map populateMap)).flatten =
      populateMap (insertBlock list block).flatten := by
  have hfind := h.find_populateLine hlist (by decide : rowThreeMarker ∈ markers)
  rw [insertBlock, insertBlock, hfind]
  exact h.splice hlist hblock _ _

theorem restructure_populateMap (h : Populatable content) :
    restructure (populateMap content) = (restructure content).map populateMap := by
  have hfind := h.find_populateLine (List.Subset.refl _) (by decide : rowSevenMarker ∈ markers)
  have hdump := mentions_populateLine h.clear (by decide : jsonDumpMarker ∈ markers)
  have hcollect := collect_map hdump
    (range (find (mentions rowSevenMarker) (lines content)) (lines content).length) []
  rw [List.map_nil] at hcollect
  rw [restructure, restructure, lines_populateMap, hfind, List.length_map, hcollect]
  cases hfound : collect (lines content)
      (range (find (mentions rowSevenMarker) (lines content)) (lines content).length) [] with
  | none => rfl
  | some found =>
      obtain ⟨block, stop⟩ := found
      have hblock : block ⊆ lines content := collect_subset (List.nil_subset _) hfound
      have hclosed := closed_modify (fun line hline => h.closed line (hblock hline)) false
      simp only [Option.map_some, Option.bind_eq_bind, Option.bind_some, Option.pure_def]
      rw [delete_map, modify_map h hblock, insertBlock_map h (delete_subset _ _ _) hclosed]

theorem not_rowComment {line : Text} (h : setsGeomap line) : ¬ rowComment <+: strip line := by
  intro hrow
  have hboth := compatible_of_start hrow (of_decide_eq_true h)
  exact absurd hboth (by decide)

theorem endsSection_populateLine (h : Populatable content) :
    ∀ line ∈ lines content, endsSection (populateLine line) = endsSection line := by
  intro line hline
  have hopen := mentions_populateLine h.clear (by decide : withOpen ∈ markers) line hline
  by_cases hsets : setsGeomap line
  · have hnew := setsGeomap_populateLine hsets
    rw [endsSection, endsSection, hopen, decide_eq_false (not_rowComment hsets),
      decide_eq_false (not_rowComment hnew)]
  · rw [populateLine_of_not hsets]

theorem findSince_map {p : Text → Bool} {list : List Text}
    (h : ∀ line ∈ list, p (populateLine line) = p line) (start : Int) :
    findSince p (list.map populateLine) start = findSince p list start := by
  have htest : (fun index => (item? (list.map populateLine) index).any p) =
      fun index => (item? list index).any p := by
    funext index
    rw [item?_map]
    cases hitem : item? list index with
    | none => rfl
    | some line => exact h line (mem_of_item? _ hitem)
  rw [findSince, findSince, List.length_map, htest]

theorem moveBack_populateMap (h : Populatable content) :
    moveBack (populateMap content) = (moveBack content).map populateMap := by
  have hstart := h.find_populateLine (List.Subset.refl _) (by decide : apiAddRowCall ∈ markers)
  have hend := findSince_map (endsSection_populateLine h)
    (find (mentions apiAddRowCall) (lines content) + 1)
  have houtside := delete_subset (lines content) (find (mentions apiAddRowCall) (lines content))
    (findSince endsSection (lines content) (find (mentions apiAddRowCall) (lines content) + 1))
  have hinsert := h.find_populateLine houtside (by decide : withOpen ∈ markers)
  have hblock := between_subset (lines content) (find (mentions apiAddRowCall) (lines content))
    (findSince endsSection (lines content) (find (mentions apiAddRowCall) (lines content) + 1))
  have hclosed := List.forall_mem_cons.mpr ⟨closed_movedHeading, h.closed_line hblock⟩
  have hsplice (index : Int) := h.splice houtside hclosed index index
  simp only [List.map_cons, h.map_populateMap hblock, populateMap_movedHeading] at hsplice
  simp only [moveBack, lines_populateMap, hstart, hend, delete_map, hinsert, between_map]
  -- A marker that is missing is missing in both files.
  split
  · rfl
  · split
    · rfl
    · split
      · rfl
      · simp only [Option.map_some, Option.pure_def, List.append_assoc (before _ _) [movedHeading]]
        exact congrArg some (hsplice _)

/--
On every file of full lines in which no assignment to `geomap_expr` mentions
what the other scripts search for, the map can be populated before or after any
of them.
-/
theorem populateMap_commutes (hclosed : Closed content) (hclear : Clear content) :
    mergeTop (populateMap content) = populateMap (mergeTop content) ∧
      restructure (populateMap content) = (restructure content).map populateMap ∧
      moveBack (populateMap content) = (moveBack content).map populateMap := by
  have h : Populatable content := ⟨hclosed, hclear⟩
  exact ⟨mergeTop_populateMap h, restructure_populateMap h, moveBack_populateMap h⟩

end Scripts

def smallFile : List Text :=
  ["    # ROW 1: KPIs\n".toList, "    # ROW 2: HTTP Ingress\n".toList,
    "    add_row(\"Frontend Web Vitals & API Analytics\")\n".toList,
    "    geomap_expr = \"\" \n".toList, "    # ROW 3: Latency\n".toList,
    "    # ROW 7: Web Vitals & Page Performance\n".toList,
    "    ".toList ++ jsonDumpMarker ++ ['\n']]

theorem populateMap_commutes_small :
    populateMap smallFile.flatten ≠ smallFile.flatten ∧
      mergeTop (populateMap smallFile.flatten) = populateMap (mergeTop smallFile.flatten) ∧
      restructure (populateMap smallFile.flatten) =
        (restructure smallFile.flatten).map populateMap ∧
      moveBack (populateMap smallFile.flatten) = (moveBack smallFile.flatten).map populateMap := by
  have hlines : lines smallFile.flatten = smallFile := by decide +kernel
  have hclosed : Closed smallFile.flatten := by
    rw [Closed, hlines]
    decide +kernel
  have hclear : Clear smallFile.flatten := by
    rw [Clear, hlines]
    decide +kernel
  refine ⟨fun hsame => ?_, populateMap_commutes hclosed hclear⟩
  have hsets : ∃ line ∈ smallFile, setsGeomap line ∧ assigned line = none := by decide +kernel
  obtain ⟨line, hline, hsets, hnone⟩ := hsets
  have hstays : smallFile.map populateLine = smallFile.map id := by
    rw [List.map_id, ← hlines, ← lines_populateMap, hsame]
  have hassigned := assigned_populateLine hsets
  rw [List.map_inj_left.mp hstays line hline, id, hnone] at hassigned
  exact absurd hassigned.symm (Option.some_ne_none _)

end NexPulse.Dashboard
