import NexPulse.Dashboard.LossFree

/-!
# Moving the Web Vitals block

What `restructure.py` does with each combination of its markers.  It is safe
where it finds the block and the row to insert it before, and on the few files
that it writes back as they were.
-/

namespace NexPulse.Dashboard

open NexPulse.Foundation
open NexPulse.Foundation.Slices
open NexPulse.Foundation.Text

/-! ## The modified block -/

/-- No line of the block is changed on the way. -/
def Untouched (block : List Text) : Prop :=
  ∀ line ∈ block, ¬ mentions addRowCall line ∧ ¬ mentions gridPosField line

section Modify

variable {block : List Text} {line marker inner : Text}

theorem mentions_iff : mentions marker line ↔ marker <:+: line := decide_eq_true_iff

theorem mentions_mono (hinner : inner <:+: marker) (h : mentions marker line) : inner <:+: line :=
  hinner.trans (mentions_iff.mp h)

theorem pageAnalytics_within (h : mentions addRowCall line) : pageAnalytics <:+: line :=
  mentions_mono (by decide) h

theorem fullWidth_within (h : mentions gridPosField line) : fullWidth <:+: line :=
  mentions_mono (by decide) h

theorem differ_analytics : Differ apiAnalytics pageAnalytics :=
  ⟨[], 'A', 'P', "PI Analytics".toList, "age Analytics".toList, by decide, by decide, by decide⟩

theorem differ_width : Differ halfWidth fullWidth :=
  ⟨"\"w\": ".toList, '1', '2', "2".toList, "4".toList, by decide, by decide, by decide⟩

theorem closed_apiCode : Closed apiCode := by
  have hbreak : apiCode =
      (apiCodeLines.dropLast.flatMap String.toList ++ "    y_pos += 8".toList) ++
      ['\n'] := by
    have hlast : apiCodeLines = apiCodeLines.dropLast ++ ["    y_pos += 8\n"] := rfl
    have hline : "    y_pos += 8\n".toList = "    y_pos += 8".toList ++ ['\n'] := by decide
    conv_lhs => rw [apiCode, hlast, List.flatMap_append]
    rw [List.flatMap_cons, List.flatMap_nil, List.append_nil, hline, List.append_assoc]
  rw [hbreak]
  exact closed_append_break _

theorem modify_of_untouched (h : Untouched block) : modify false block = block := by
  induction block with
  | nil => rfl
  | cons line block ih =>
      obtain ⟨⟨hadd, hgrid⟩, hrest⟩ := List.forall_mem_cons.mp h
      rw [modify, if_neg hadd, if_neg (fun hboth => hgrid hboth.1),
        if_neg (fun hboth => Bool.false_ne_true hboth.2), ih hrest]

theorem length_modify (inBarChart : Bool) (block : List Text) :
    (modify inBarChart block).length = block.length := by
  induction block generalizing inBarChart with
  | nil => rfl
  | cons line block ih =>
      rw [modify]
      split
      · exact congrArg (· + 1) (ih _)
      · split
        · exact congrArg (· + 1) (ih _)
        · split <;> exact congrArg (· + 1) (ih _)

theorem differ_modify (h : ¬ Untouched block) :
    Differ (modify false block).flatten block.flatten := by
  induction block with
  | nil => exact absurd (by simp [Untouched]) h
  | cons line block ih =>
      rw [modify, List.flatten_cons]
      split
      · next hadd =>
          exact (differ_replace (by decide) differ_analytics (pageAnalytics_within hadd)).append _ _
      · split
        · next hgrid =>
            exact (differ_replace (by decide) differ_width (fullWidth_within hgrid.1)).append _ _
        · next hadd hgrid =>
            rw [if_neg (fun hboth => Bool.false_ne_true hboth.2), List.flatten_cons]
            refine (ih fun hrest => h ?_).append_left line
            exact List.forall_mem_cons.mpr ⟨⟨hadd, fun hmem => hgrid ⟨hmem, by simp⟩⟩, hrest⟩

theorem closed_modify (h : ∀ line ∈ block, Full line) (inBarChart : Bool) :
    ∀ piece ∈ modify inBarChart block, Closed piece := by
  induction block generalizing inBarChart with
  | nil => simp [modify]
  | cons line block ih =>
      obtain ⟨hline, hrest⟩ := List.forall_mem_cons.mp h
      rw [modify]
      split
      · refine List.forall_mem_cons.mpr ⟨closed_of_full ?_, ih hrest _⟩
        exact hline.replace (by decide) (by decide) (by decide)
      · split
        · refine List.forall_mem_cons.mpr ⟨closed_of_full ?_, ih hrest _⟩
          exact hline.replace (by decide) (by decide) (by decide)
        · split
          · exact List.forall_mem_cons.mpr ⟨closed_apiCode, ih hrest _⟩
          · exact List.forall_mem_cons.mpr ⟨closed_of_full hline, ih hrest _⟩

theorem modify_heading (line : Text) (block : List Text) :
    ∃ heading, modify false (line :: block) = heading :: (modify false (line :: block)).tail ∧
      (mentions rowSevenMarker line → mentions rowSevenMarker heading) ∧
      (line ≠ [] → heading ≠ []) ∧ (Full line → Full heading) ∧
      ('\n' ∉ line → '\n' ∉ heading) := by
  have hreplaced (old new : Text) (hold : old ≠ []) (hnew : new ≠ [] ∧ '\n' ∉ new)
      (holdOpen : '\n' ∉ old) (hapart : Apart rowSevenMarker old) :
      (mentions rowSevenMarker line → mentions rowSevenMarker (replace old new line)) ∧
        (line ≠ [] → replace old new line ≠ []) ∧ (Full line → Full (replace old new line)) ∧
        ('\n' ∉ line → '\n' ∉ replace old new line) := by
    refine ⟨fun hmarker => ?_, replace_ne_nil hold hnew.1,
      fun hfull => hfull.replace hold holdOpen hnew.2, fun hopen hmem => ?_⟩
    · exact mentions_iff.mpr (infix_replace hold hapart (mentions_iff.mp hmarker))
    · exact (mem_replace hold hmem).elim hnew.2 hopen
  rw [modify]
  split
  · exact ⟨_, rfl, hreplaced _ _ (by decide) (by decide) (by decide) (by decide)⟩
  · split
    · exact ⟨_, rfl, hreplaced _ _ (by decide) (by decide) (by decide) (by decide)⟩
    · rw [if_neg (fun hboth => Bool.false_ne_true hboth.2)]
      exact ⟨line, rfl, id, id, id, id⟩

end Modify

/-! ## The two searches -/

section Collect

variable {front inside tail suffix block lines : List Text} {line : Text}

theorem collect_found (hinside : ∀ other ∈ inside, ¬ mentions jsonDumpMarker other)
    (hline : mentions jsonDumpMarker line) (hlines : lines = front ++ inside ++ line :: tail) :
    collect lines (range front.length lines.length) block =
      some (block ++ inside, ((front ++ inside).length : Int)) := by
  induction inside generalizing front block with
  | nil =>
      rw [List.append_nil] at hlines ⊢
      have hitem : item? lines front.length = some line := by rw [hlines, item?_length]
      have hlt : (front.length : Int) < lines.length := by
        rw [hlines, List.length_append, List.length_cons]
        omega
      rw [range_cons hlt, collect, hitem]
      simp [hline]
  | cons first inside ih =>
      obtain ⟨hfirst, hrest⟩ := List.forall_mem_cons.mp hinside
      have hcut : lines = (front ++ [first]) ++ inside ++ line :: tail := by simp [hlines]
      have hitem : item? lines front.length = some first := by
        rw [hlines, List.append_assoc, List.cons_append, item?_length]
      have hlt : (front.length : Int) < lines.length := by
        rw [hlines, List.append_assoc, List.length_append, List.cons_append, List.length_cons]
        omega
      have hnext := @ih (front ++ [first]) (block ++ [first]) hrest hcut
      rw [List.length_append, List.length_singleton, Int.natCast_add, Int.natCast_one] at hnext
      rw [range_cons hlt, collect, hitem]
      simp only [Option.bind_eq_bind, Option.bind_some, if_neg hfirst, hnext]
      simp

theorem collect_missing (hsuffix : ∀ other ∈ suffix, ¬ mentions jsonDumpMarker other)
    (hlines : lines = front ++ suffix) :
    collect lines (range front.length lines.length) block = some (block ++ suffix, -1) := by
  induction suffix generalizing front block with
  | nil =>
      rw [hlines, List.append_nil, List.append_nil, range_eq_nil le_rfl, collect]
  | cons first suffix ih =>
      obtain ⟨hfirst, hrest⟩ := List.forall_mem_cons.mp hsuffix
      have hcut : lines = (front ++ [first]) ++ suffix := by simp [hlines]
      have hitem : item? lines front.length = some first := by rw [hlines, item?_length]
      have hlt : (front.length : Int) < lines.length := by
        rw [hlines, List.length_append, List.length_cons]
        omega
      have hnext := @ih (front ++ [first]) (block ++ [first]) hrest hcut
      rw [List.length_append, List.length_singleton, Int.natCast_add, Int.natCast_one] at hnext
      rw [range_cons hlt, collect, hitem]
      simp only [Option.bind_eq_bind, Option.bind_some, if_neg hfirst, hnext]
      simp

theorem collect_from_last {init : List Text} {last : Text} (hlines : lines = init ++ [last])
    (hlast : ¬ mentions jsonDumpMarker last) :
    collect lines (range (-1) lines.length) [] = collect lines (range 0 lines.length) [last] := by
  have hitem : item? lines (-1) = some last := by rw [hlines, item?_neg_one]
  rw [range_cons (by omega), collect, hitem]
  simp [hlast]

end Collect

theorem insertBlock_cases (lines block : List Text) :
    (∃ front line tail, lines = front ++ line :: tail ∧ mentions rowThreeMarker line ∧
      insertBlock lines block = front ++ block ++ line :: tail) ∨
      (∀ line ∈ lines, ¬ mentions rowThreeMarker line) ∧
        insertBlock lines block =
          lines.dropLast ++ block ++ lines.drop (lines.length - 1) := by
  rcases find_cases (mentions rowThreeMarker) lines with
    ⟨front, line, tail, rfl, -, hline, hfound⟩ | ⟨hnone, hfound⟩
  · refine .inl ⟨front, line, tail, rfl, hline, ?_⟩
    rw [insertBlock, hfound, before_length, since_length]
  · refine .inr ⟨hnone, ?_⟩
    rw [insertBlock, hfound, before_neg_one, since, place_neg_one]

theorem insertBlock_nil (lines : List Text) : insertBlock lines [] = lines := by
  rw [insertBlock, List.append_nil]
  exact List.take_append_drop _ _

theorem insertBlock_split (lines block : List Text) :
    ∃ front tail, lines = front ++ tail ∧ insertBlock lines block = front ++ block ++ tail :=
  ⟨_, _, (List.take_append_drop _ _).symm, rfl⟩

/-! ## What the script writes -/

structure Moves (all front block tail : List Text) : Prop where
  lines_eq : all = front ++ block ++ tail
  front_clear : ∀ line ∈ front, ¬ mentions rowSevenMarker line
  starts : ∃ line rest, block ++ tail = line :: rest ∧ mentions rowSevenMarker line
  block_clear : ∀ line ∈ block, ¬ mentions jsonDumpMarker line
  ends : ∃ line rest, tail = line :: rest ∧ mentions jsonDumpMarker line

/-- All three markers are found, and what is outside the block is kept. -/
def RestructureSafe (content : Text) : Prop :=
  let after := (restructure content).getD content
  after = content ∨ ∃ front block tail, Moves (lines content) front block tail ∧
    (∃ line ∈ front ++ tail, mentions rowThreeMarker line) ∧
    Keeps (front ++ tail) (lines (modify false block).flatten) after

section Restructure

variable {content : Text} {front block tail : List Text}

theorem restructure_of_moves (h : Moves (lines content) front block tail) :
    restructure content = some (insertBlock (front ++ tail) (modify false block)).flatten := by
  obtain ⟨first, rest, hstart, hfirst⟩ := h.starts
  obtain ⟨line, more, rfl, hline⟩ := h.ends
  have hfound : find (mentions rowSevenMarker) (lines content) = front.length := by
    rw [h.lines_eq, List.append_assoc, hstart]
    exact find_of_first h.front_clear hfirst
  have hcollect := @collect_found front block more [] (lines content) line h.block_clear hline
    h.lines_eq
  rw [List.nil_append] at hcollect
  rw [restructure, hfound, hcollect]
  simp only [Option.bind_eq_bind, Option.bind_some]
  rw [h.lines_eq, delete_between]
  rfl

theorem restructure_of_no_end {init : List Text} {first last : Text} {rest : List Text}
    (hlines : lines content = front ++ first :: rest) (hlast : first :: rest = init ++ [last])
    (hfront : ∀ line ∈ front, ¬ mentions rowSevenMarker line)
    (hfirst : mentions rowSevenMarker first)
    (hsuffix : ∀ line ∈ first :: rest, ¬ mentions jsonDumpMarker line) :
    restructure content =
      some (insertBlock (front ++ [last]) (modify false (first :: rest))).flatten := by
  have hcollect := @collect_missing front (first :: rest) [] (lines content) hsuffix hlines
  rw [List.nil_append] at hcollect
  have hdelete : delete (lines content) front.length (-1) = front ++ [last] := by
    have hlength : (front ++ init).length = (front ++ first :: rest).length - 1 := by
      simp [hlast]
    rw [hlines, delete, place_natCast, place_neg_one, ← hlength, hlast, ← List.append_assoc,
      Nat.min_eq_left (by simp), Nat.max_eq_right (by simp), List.drop_left,
      List.append_assoc, List.take_left]
  have hfound : find (mentions rowSevenMarker) (lines content) = front.length := by
    rw [hlines]
    exact find_of_first hfront hfirst
  rw [restructure, hfound, hcollect]
  simp only [Option.bind_eq_bind, Option.bind_some]
  rw [hdelete]
  rfl

theorem restructure_of_nil (h : lines content = []) : restructure content = none := by
  rw [restructure, h]
  rfl

theorem delete_from_last {lines : List Text} {stop : Int}
    (h : place lines.length stop ≤ lines.length - 1) : delete lines (-1) stop = lines := by
  rw [delete, place_neg_one, Nat.max_eq_left h, List.take_append_drop]

theorem restructure_of_no_start {init : List Text} {last : Text}
    (hlines : lines content = init ++ [last])
    (hnone : ∀ line ∈ lines content, ¬ mentions rowSevenMarker line)
    (hlast : ¬ mentions jsonDumpMarker last) :
    ∃ rest, restructure content =
      some (insertBlock (lines content) (modify false (last :: rest))).flatten := by
  have hcollect := collect_from_last hlines hlast
  rcases find_cases (mentions jsonDumpMarker) (lines content) with
    ⟨front, line, tail, hsplit, hfront, hline, -⟩ | ⟨hmissing, -⟩
  · refine ⟨front, ?_⟩
    have hinside := @collect_found [] front tail [last] (lines content) line hfront hline hsplit
    rw [List.length_nil, Int.natCast_zero] at hinside
    have hdelete : delete (lines content) (-1) ([] ++ front).length = lines content := by
      refine delete_from_last ?_
      rw [place_natCast, hsplit]
      simp
    rw [restructure, find_of_none hnone, hcollect, hinside]
    simp only [Option.bind_eq_bind, Option.bind_some]
    rw [hdelete]
    rfl
  · refine ⟨lines content, ?_⟩
    have hinside := @collect_missing [] (lines content) [last] (lines content) hmissing rfl
    rw [List.length_nil, Int.natCast_zero] at hinside
    rw [restructure, find_of_none hnone, hcollect, hinside]
    simp only [Option.bind_eq_bind, Option.bind_some]
    rw [delete_from_last (le_of_eq (place_neg_one _))]
    rfl

theorem restructure_of_end_last {init : List Text} {last : Text}
    (hlines : lines content = init ++ [last])
    (hnone : ∀ line ∈ lines content, ¬ mentions rowSevenMarker line)
    (hlast : mentions jsonDumpMarker last) : restructure content = some content := by
  have hitem : item? (lines content) (-1) = some last := by rw [hlines, item?_neg_one]
  rw [restructure, find_of_none hnone, range_cons (by omega), collect, hitem]
  simp only [Option.bind_eq_bind, Option.bind_some, if_pos hlast, Option.pure_def]
  rw [delete_from_last (le_of_eq (place_neg_one _)), modify, insertBlock_nil, flatten_lines]

/-! ## Where the script is safe -/

theorem areLines_of_moves (h : Moves (lines content) front block tail) :
    tail ≠ [] ∧ (∀ line ∈ front ++ block, Full line) ∧ AreLines tail := by
  obtain ⟨line, rest, rfl, -⟩ := h.ends
  exact ⟨List.cons_ne_nil _ _, (areLines_append (List.cons_ne_nil _ _)).mp
    (h.lines_eq ▸ areLines_lines content)⟩

theorem restructureSafe_of_moves (h : Moves (lines content) front block tail)
    (hrow : ∃ line ∈ front ++ tail, mentions rowThreeMarker line) : RestructureSafe content := by
  obtain ⟨htail, hfull, hlast⟩ := areLines_of_moves h
  have hkept : AreLines (front ++ tail) :=
    (areLines_append htail).mpr ⟨fun line hline => hfull line (by simp [hline]), hlast⟩
  refine .inr ⟨front, block, tail, h, hrow, ?_⟩
  rw [restructure_of_moves h, Option.getD_some]
  rcases insertBlock_cases (front ++ tail) (modify false block) with
    ⟨before, line, after, hsplit, -, hinsert⟩ | ⟨hnone, -⟩
  · rw [hinsert, hsplit, List.flatten_append, List.flatten_append]
    refine keeps_insert (hsplit ▸ hkept) (List.cons_ne_nil _ _) (closed_flatten ?_)
    exact closed_modify (fun line hline => hfull line (by simp [hline])) false
  · obtain ⟨line, hline, hmarker⟩ := hrow
    exact absurd hmarker (hnone line hline)

theorem restructure_eq_iff_of_moves (h : Moves (lines content) front block tail)
    (hrow : ∀ line ∈ front ++ tail, ¬ mentions rowThreeMarker line) :
    restructure content = some content ↔ block = [] ∨ tail.length = 1 ∧ Untouched block := by
  obtain ⟨htail, hfull, hlast⟩ := areLines_of_moves h
  obtain ⟨init, last, rfl⟩ := List.eq_nil_or_concat' tail |>.resolve_left htail
  have hinsert : insertBlock (front ++ (init ++ [last])) (modify false block) =
      front ++ init ++ modify false block ++ [last] := by
    rcases insertBlock_cases (front ++ (init ++ [last])) (modify false block) with
      ⟨before, line, after, hsplit, hline, -⟩ | ⟨-, hinsert⟩
    · exact absurd hline (hrow line (by rw [hsplit]; simp))
    · rw [hinsert, ← List.append_assoc, List.dropLast_concat, List.length_append,
        List.length_singleton, Nat.add_sub_cancel, List.drop_left]
  have hcontent := flatten_lines content
  rw [h.lines_eq] at hcontent
  have hsame : restructure content = some content ↔
      init.flatten ++ (modify false block).flatten = block.flatten ++ init.flatten := by
    rw [restructure_of_moves h, hinsert, Option.some_inj]
    conv_lhs => rhs; rw [← hcontent]
    simp only [List.flatten_append, List.flatten_singleton, List.append_assoc,
      List.append_cancel_left_eq]
    rw [← List.append_assoc, ← List.append_assoc, List.append_cancel_right_eq]
  rw [hsame]
  constructor
  · intro hmoved
    cases block with
    | nil => exact .inl rfl
    | cons first block =>
        refine .inr ?_
        cases init with
        | nil =>
            refine ⟨rfl, ?_⟩
            by_contra htouched
            simp only [List.flatten_nil, List.nil_append, List.append_nil] at hmoved
            exact (differ_modify htouched).ne hmoved
        | cons line init =>
            obtain ⟨line', rest, hends, hline⟩ := h.ends
            obtain ⟨rfl, -⟩ := List.cons.inj hends
            rw [List.flatten_cons, List.flatten_cons, List.append_assoc,
              List.append_assoc] at hmoved
            have hfirst : Full first := hfull first (by simp)
            have hopening : Full line :=
              ((areLines_append (List.cons_ne_nil last [])).mp hlast).1 line (by simp)
            rw [hopening.eq_of_append hfirst hmoved] at hline
            exact absurd hline (h.block_clear first (by simp))
  · rintro (rfl | ⟨hlength, huntouched⟩)
    · simp [modify]
    · obtain rfl : init = [] := by simpa using hlength
      simp [modify_of_untouched huntouched]

theorem modify_append_ne {last : Text} (hlast : last ≠ []) (block : List Text) :
    (modify false block).flatten ++ last ≠ block.flatten := by
  intro hsame
  by_cases huntouched : Untouched block
  · rw [modify_of_untouched huntouched, List.append_right_eq_self] at hsame
    exact hlast hsame
  · have hdiffer := (differ_modify huntouched).append last []
    rw [List.append_nil] at hdiffer
    exact hdiffer.ne hsame

theorem modify_flatten_append_ne {first line more other : Text} {rest : List Text}
    (hlines : AreLines (first :: rest)) (hfirst : mentions rowSevenMarker first)
    (hline : Full line) (hearlier : ¬ mentions rowSevenMarker line) :
    (modify false (first :: rest)).flatten ++ (line ++ more) ≠ line ++ other := by
  obtain ⟨heading, hmodify, hmarker, hsome, hfull, hopen⟩ := modify_heading first rest
  intro hsame
  rw [hmodify, List.flatten_cons, List.append_assoc] at hsame
  by_cases hbreak : Full first
  · rw [(hfull hbreak).eq_of_append hline hsame] at hmarker
    exact hearlier (hmarker hfirst)
  · cases rest with
    | nil =>
        obtain ⟨hne, hlast⟩ := hlines.resolve_left hbreak
        have hnone : (modify false [first]).tail = [] := by
          rw [← List.length_eq_zero_iff, List.length_tail, length_modify]
          rfl
        have hcut := congrArg lines hsame
        rw [hnone, List.flatten_nil, List.nil_append, lines_append_full hline,
          lines_append_open (hopen hlast) _ _ _ (lines_append_full hline more)] at hcut
        exact hsome hne (List.append_left_eq_self.mp (List.cons.inj hcut).1)
    | cons next rest => exact hbreak hlines.1

theorem restructure_ne_of_no_end {first : Text} {rest : List Text}
    (hlines : lines content = front ++ first :: rest)
    (hfront : ∀ line ∈ front, ¬ mentions rowSevenMarker line)
    (hfirst : mentions rowSevenMarker first)
    (hsuffix : ∀ line ∈ first :: rest, ¬ mentions jsonDumpMarker line) :
    restructure content ≠ some content := by
  obtain ⟨init, last, hends⟩ :=
    List.eq_nil_or_concat' (first :: rest) |>.resolve_left (List.cons_ne_nil _ _)
  have hcut : AreLines (front ++ first :: rest) := hlines ▸ areLines_lines content
  have hlast : last ≠ [] := hcut.ne_nil last (by simp [hends])
  obtain ⟨hfull, hrest⟩ := (areLines_append (List.cons_ne_nil _ _)).mp hcut
  have hcontent := flatten_lines content
  rw [hlines, List.flatten_append] at hcontent
  rw [restructure_of_no_end hlines hends hfront hfirst hsuffix]
  intro hsame
  rw [Option.some_inj] at hsame
  conv_rhs at hsame => rw [← hcontent]
  have hbefore : insertBlock (front ++ [last]) (modify false (first :: rest)) ≠
      front ++ modify false (first :: rest) ++ [last] := by
    intro hinsert
    rw [hinsert, List.flatten_append, List.flatten_append, List.flatten_singleton,
      List.append_assoc, List.append_cancel_left_eq] at hsame
    exact modify_append_ne hlast _ hsame
  rcases insertBlock_cases (front ++ [last]) (modify false (first :: rest)) with
    ⟨before, line, after, hsplit, -, hinsert⟩ | ⟨-, hinsert⟩
  · rcases List.eq_nil_or_concat' after with rfl | ⟨after, last', rfl⟩
    · obtain ⟨rfl, hlastLine⟩ := List.append_inj' hsplit rfl
      rw [← hlastLine] at hinsert
      exact hbefore hinsert
    · obtain ⟨rfl, hlastLine⟩ : front = before ++ line :: after ∧ [last] = [last'] := by
        refine List.append_inj' ?_ rfl
        rw [hsplit]
        simp
      rw [hinsert] at hsame
      simp only [List.flatten_append, List.flatten_cons, List.append_assoc,
        List.append_cancel_left_eq] at hsame
      exact modify_flatten_append_ne hrest hfirst (hfull line (by simp)) (hfront line (by simp))
        hsame
  · rw [List.dropLast_concat, List.length_append, List.length_singleton, Nat.add_sub_cancel,
      List.drop_left] at hinsert
    exact hbefore hinsert

theorem restructure_ne_of_no_start {init : List Text} {last : Text}
    (hlines : lines content = init ++ [last])
    (hnone : ∀ line ∈ lines content, ¬ mentions rowSevenMarker line)
    (hlast : ¬ mentions jsonDumpMarker last) : restructure content ≠ some content := by
  obtain ⟨rest, hwritten⟩ := restructure_of_no_start hlines hnone hlast
  obtain ⟨before, after, hsplit, hinsert⟩ :=
    insertBlock_split (lines content) (modify false (last :: rest))
  obtain ⟨heading, hmodify, -, hsome, -⟩ := modify_heading last rest
  have hheading : heading ≠ [] :=
    hsome ((areLines_lines content).ne_nil last (by simp [hlines]))
  rw [hwritten, hinsert, hmodify]
  intro hsame
  have hlength := congrArg List.length (Option.some_inj.mp hsame)
  rw [← flatten_lines content, hsplit] at hlength
  have := List.length_pos_iff.mpr hheading
  simp only [List.flatten_append, List.flatten_cons, List.length_append] at hlength
  omega

/-- The markers under which the script keeps the lines of the file. -/
def RestructureFinds (all : List Text) : Prop :=
  (∃ front block tail, Moves all front block tail ∧
    ((∃ line ∈ front ++ tail, mentions rowThreeMarker line) ∨ block = [] ∨
      tail.length = 1 ∧ Untouched block)) ∨
    (∀ line ∈ all, ¬ mentions rowSevenMarker line) ∧
      ∀ last ∈ all.getLast?, mentions jsonDumpMarker last

theorem restructure_cases (content : Text) :
    lines content = [] ∨ (∃ front block tail, Moves (lines content) front block tail) ∨
      (∃ front first rest, lines content = front ++ first :: rest ∧
        (∀ line ∈ front, ¬ mentions rowSevenMarker line) ∧ mentions rowSevenMarker first ∧
        ∀ line ∈ first :: rest, ¬ mentions jsonDumpMarker line) ∨
      (∀ line ∈ lines content, ¬ mentions rowSevenMarker line) ∧
        ∃ init last, lines content = init ++ [last] := by
  rcases find_cases (mentions rowSevenMarker) (lines content) with
    ⟨front, first, rest, hlines, hfront, hfirst, -⟩ | ⟨hnone, -⟩
  · rcases find_cases (mentions jsonDumpMarker) (first :: rest) with
      ⟨block, line, tail, hrest, hblock, hline, -⟩ | ⟨hsuffix, -⟩
    · refine .inr (.inl ⟨front, block, line :: tail, ?_, hfront, ⟨first, rest, hrest.symm, hfirst⟩,
        hblock, ⟨line, tail, rfl, hline⟩⟩)
      rw [hlines, hrest, List.append_assoc]
    · exact .inr (.inr (.inl ⟨front, first, rest, hlines, hfront, hfirst, hsuffix⟩))
  · rcases List.eq_nil_or_concat' (lines content) with hnil | ⟨init, last, hlast⟩
    · exact .inl hnil
    · exact .inr (.inr (.inr ⟨hnone, init, last, hlast⟩))

theorem restructureSafe_of_eq (h : restructure content = some content) :
    RestructureSafe content := by
  refine .inl ?_
  rw [h, Option.getD_some]

theorem eq_or_moves_of_safe {after : Text} (hwritten : restructure content = some after)
    (h : RestructureSafe content) :
    restructure content = some content ∨ RestructureFinds (lines content) := by
  rcases h with hsame | ⟨front, block, tail, hmoves, hrow, -⟩
  · rw [hwritten, Option.getD_some] at hsame
    exact .inl (hsame ▸ hwritten)
  · exact .inr (.inl ⟨front, block, tail, hmoves, .inl hrow⟩)

theorem restructureSafe_iff (content : Text) :
    RestructureSafe content ↔ RestructureFinds (lines content) := by
  constructor
  · intro hsafe
    rcases restructure_cases content with hnil | ⟨front, block, tail, hmoves⟩ |
      ⟨front, first, rest, hlines, hfront, hfirst, hsuffix⟩ | ⟨hnone, init, last, hlines⟩
    · exact .inr (by simp [hnil])
    · rcases eq_or_moves_of_safe (restructure_of_moves hmoves) hsafe with hsame | hfinds
      · by_cases hrow : ∃ line ∈ front ++ tail, mentions rowThreeMarker line
        · exact .inl ⟨front, block, tail, hmoves, .inl hrow⟩
        · have hmissing : ∀ line ∈ front ++ tail, ¬ mentions rowThreeMarker line :=
            fun line hline hmarker => hrow ⟨line, hline, hmarker⟩
          exact .inl ⟨front, block, tail, hmoves,
            .inr ((restructure_eq_iff_of_moves hmoves hmissing).mp hsame)⟩
      · exact hfinds
    · obtain ⟨init, last, hends⟩ :=
        List.eq_nil_or_concat' (first :: rest) |>.resolve_left (List.cons_ne_nil _ _)
      have hwritten := restructure_of_no_end hlines hends hfront hfirst hsuffix
      exact (eq_or_moves_of_safe hwritten hsafe).resolve_left
        (restructure_ne_of_no_end hlines hfront hfirst hsuffix)
    · by_cases hlast : mentions jsonDumpMarker last
      · refine .inr ⟨hnone, ?_⟩
        rw [hlines, List.getLast?_concat]
        intro other hother
        exact Option.mem_some_iff.mp hother ▸ hlast
      · obtain ⟨rest, hwritten⟩ := restructure_of_no_start hlines hnone hlast
        exact (eq_or_moves_of_safe hwritten hsafe).resolve_left
          (restructure_ne_of_no_start hlines hnone hlast)
  · rintro (⟨front, block, tail, hmoves, hfinds⟩ | ⟨hnone, hends⟩)
    · by_cases hrow : ∃ line ∈ front ++ tail, mentions rowThreeMarker line
      · exact restructureSafe_of_moves hmoves hrow
      · have hmissing : ∀ line ∈ front ++ tail, ¬ mentions rowThreeMarker line :=
          fun line hline hmarker => hrow ⟨line, hline, hmarker⟩
        exact restructureSafe_of_eq
          ((restructure_eq_iff_of_moves hmoves hmissing).mpr (hfinds.resolve_left hrow))
    · rcases List.eq_nil_or_concat' (lines content) with hnil | ⟨init, last, hlines⟩
      · refine .inl ?_
        rw [restructure_of_nil hnil, Option.getD_none]
      · refine restructureSafe_of_eq (restructure_of_end_last hlines hnone (hends last ?_))
        rw [hlines, List.getLast?_concat]
        rfl

end Restructure

/-! ## The three scripts -/

theorem scripts_loss_free_iff (content : Text) :
    (MergeTopSafe content ↔ ∃ front block tail, Merges (lines content) front block tail) ∧
      (RestructureSafe content ↔ RestructureFinds (lines content)) ∧ MoveBackSafe content :=
  ⟨mergeTopSafe_iff content, restructureSafe_iff content, moveBackSafe content⟩

def mergedOnce : List Text :=
  ["    y_pos += 5\n".toList, "    # ROW 2: HTTP Ingress\n".toList, "    return 0\n".toList]

/-- A second run of `merge_top.py` writes the row of the ingress twice. -/
theorem mergeTop_repeats_row :
    ¬ MergeTopSafe mergedOnce.flatten ∧
      ∃ first row last, mergedOnce = [first, row, last] ∧
        mergeTop mergedOnce.flatten = first ++ row ++ newBlock ++ row ++ last := by
  have hlines : lines mergedOnce.flatten = mergedOnce := by decide
  have hnone : ∀ line ∈ mergedOnce, ¬ mentions rowOneMarker line := by decide
  constructor
  · intro hsafe
    obtain ⟨front, block, tail, h⟩ := (mergeTopSafe_iff _).mp hsafe
    obtain ⟨line, rest, hstart, hline⟩ := h.starts
    have hall := h.lines_eq
    rw [hlines, List.append_assoc, hstart] at hall
    exact hnone line (by simp [hall]) hline
  · refine ⟨_, _, _, rfl, ?_⟩
    have hstart : find (mentions rowOneMarker) (lines mergedOnce.flatten) = -1 := by
      rw [hlines]
      exact find_of_none hnone
    have hend : find (mentions rowTwoMarker) (lines mergedOnce.flatten) = 1 := by
      rw [hlines]
      decide
    rw [mergeTop, hstart, hend, hlines]
    simp [before, since, place, mergedOnce]

end NexPulse.Dashboard
