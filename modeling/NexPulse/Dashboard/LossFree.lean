import NexPulse.Dashboard.Scripts

/-!
# Loss-free rewriting

A script is safe on a file when it leaves the file alone, or finds all its
markers and keeps every line outside the block that it replaces or moves.
`move_back.py` stops at a missing marker and is safe on every file; the other
two go on with the index -1, which is the last line.
-/

namespace NexPulse.Dashboard

open NexPulse.Foundation
open NexPulse.Foundation.Slices
open NexPulse.Foundation.Text

/--
The lines of the file are those outside the block, each once and in their
order, and those written.
-/
def Keeps (outside written : List Text) (after : Text) : Prop :=
  outside.Sublist (lines after) ∧ (lines after).Perm (outside ++ written)

section Keeps

variable {front tail : List Text} {inserted : Text}

theorem areLines_cut {list : List Text} {first second : Nat} (h : AreLines list)
    (hle : first ≤ second) (hlt : second < list.length) :
    (∀ line ∈ list.take second, Full line) ∧ AreLines (list.take first ++ list.drop second) := by
  have htail : list.drop second ≠ [] := List.drop_eq_nil_iff.not.mpr (not_le.mpr hlt)
  obtain ⟨hfull, hrest⟩ : (∀ line ∈ list.take second, Full line) ∧ AreLines (list.drop second) := by
    rw [← areLines_append htail, List.take_append_drop]
    exact h
  refine ⟨hfull, (areLines_append htail).mpr ⟨fun line hline => hfull line ?_, hrest⟩⟩
  exact (List.take_subset_take_left list hle) hline

theorem lines_insert (hlines : AreLines (front ++ tail)) (htail : tail ≠ [])
    (hinserted : Closed inserted) :
    lines (front.flatten ++ inserted ++ tail.flatten) = front ++ lines inserted ++ tail := by
  obtain ⟨hfront, hrest⟩ := (areLines_append htail).mp hlines
  rw [List.append_assoc, lines_flatten_append hfront, lines_append hinserted, lines_flatten hrest,
    List.append_assoc]

theorem keeps_insert (hlines : AreLines (front ++ tail)) (htail : tail ≠ [])
    (hinserted : Closed inserted) :
    Keeps (front ++ tail) (lines inserted) (front.flatten ++ inserted ++ tail.flatten) := by
  rw [Keeps, lines_insert hlines htail hinserted]
  constructor
  · exact (List.sublist_append_left _ _).append (List.Sublist.refl _)
  · rw [List.append_assoc, List.append_assoc]
    exact List.perm_append_comm.append_left _

theorem keeps_at {list : List Text} {index : Nat} (hlines : AreLines list)
    (hindex : index < list.length) (hinserted : Closed inserted) :
    Keeps list (lines inserted)
      ((list.take index).flatten ++ inserted ++ (list.drop index).flatten) := by
  have hsplit := List.take_append_drop index list
  conv => arg 1; rw [← hsplit]
  refine keeps_insert (hsplit.symm ▸ hlines) ?_ hinserted
  exact List.drop_eq_nil_iff.not.mpr (not_le.mpr hindex)

end Keeps

/-! ## merge_top.py -/

theorem newBlock_start : ∃ rest,
    newBlock = "    # ROW 1: Overview & System Saturation\n".toList ++ rest :=
  ⟨_, rfl⟩

theorem closed_newBlock : Closed newBlock := by
  have hbreak : newBlock = newBlockLines.dropLast.flatMap String.toList ++ ['\n'] := by
    have hlast : newBlockLines = newBlockLines.dropLast ++ ["\n"] := rfl
    conv_lhs => rw [newBlock, hlast, List.flatMap_append]
    rfl
  rw [hbreak]
  exact closed_append_break _

structure Merges (all front block tail : List Text) : Prop where
  lines_eq : all = front ++ block ++ tail
  front_clear : ∀ line ∈ front, ¬ mentions rowOneMarker line
  starts : ∃ line rest, block ++ tail = line :: rest ∧ mentions rowOneMarker line
  clear : ∀ line ∈ front ++ block, ¬ mentions rowTwoMarker line
  ends : ∃ line rest, tail = line :: rest ∧ mentions rowTwoMarker line

/-- Both markers are found, and what is outside the block from one to the other is kept. -/
def MergeTopSafe (content : Text) : Prop :=
  mergeTop content = content ∨ ∃ front block tail, Merges (lines content) front block tail ∧
    Keeps (front ++ tail) (lines newBlock) (mergeTop content)

section MergeTop

variable {content : Text}

theorem mergeTop_eq (content : Text) :
    let startIdx := find (mentions rowOneMarker) (lines content)
    let endIdx := find (mentions rowTwoMarker) (lines content)
    mergeTop content = ((lines content).take (place (lines content).length startIdx)).flatten ++
      newBlock ++ ((lines content).drop (place (lines content).length endIdx)).flatten := by
  intro startIdx endIdx
  change (before _ startIdx ++ [newBlock] ++ since _ endIdx).flatten = _
  rw [List.flatten_append, List.flatten_append, List.flatten_singleton]
  rfl

theorem insert_ne_of_overlap {first second : Nat} (h : second ≤ first) {inserted : Text}
    (hinserted : inserted ≠ []) :
    ((lines content).take first).flatten ++ inserted ++ ((lines content).drop second).flatten ≠
      content := by
  intro hsame
  obtain ⟨more, rfl⟩ := Nat.exists_eq_add_of_le h
  have hcontent := flatten_lines content
  rw [← List.take_append_drop second (lines content), List.flatten_append] at hcontent
  conv_rhs at hsame => rw [← hcontent]
  rw [List.take_add, List.flatten_append] at hsame
  have hlength := congrArg List.length hsame
  have := List.length_pos_iff.mpr hinserted
  simp only [List.length_append] at hlength
  omega

theorem newBlock_ne_nil : newBlock ≠ [] := by
  obtain ⟨rest, hrest⟩ := newBlock_start
  rw [hrest]
  simp

theorem newBlock_append_ne {line rest more : Text} (hline : Full line)
    (hmarker : mentions rowOneMarker line) : newBlock ++ rest ≠ line ++ more := by
  obtain ⟨block, hblock⟩ := newBlock_start
  intro hsame
  rw [hblock, List.append_assoc] at hsame
  have hstart : Full "    # ROW 1: Overview & System Saturation\n".toList := by decide
  rw [← hstart.eq_of_append hline hsame] at hmarker
  exact absurd hmarker (by decide)

theorem mergeTopSafe_of_merges {front block tail : List Text}
    (h : Merges (lines content) front block tail) : MergeTopSafe content := by
  obtain ⟨first, rest, hstart, hfirst⟩ := h.starts
  obtain ⟨line, more, rfl, hline⟩ := h.ends
  have hlines : lines content = front ++ first :: rest := by
    rw [h.lines_eq, List.append_assoc, hstart]
  have hstartIdx : find (mentions rowOneMarker) (lines content) = front.length := by
    rw [hlines]
    exact find_of_first h.front_clear hfirst
  have hendIdx : find (mentions rowTwoMarker) (lines content) = (front ++ block).length := by
    rw [h.lines_eq]
    exact find_of_first h.clear hline
  obtain ⟨hfull, hlast⟩ := (areLines_append (List.cons_ne_nil line more)).mp
    (h.lines_eq ▸ areLines_lines content)
  have hkept : AreLines (front ++ line :: more) :=
    (areLines_append (List.cons_ne_nil _ _)).mpr
      ⟨fun other hother => hfull other (by simp [hother]), hlast⟩
  refine .inr ⟨front, block, line :: more, h, ?_⟩
  rw [mergeTop, hstartIdx, hendIdx]
  have hbefore : before (lines content) front.length = front := by rw [hlines, before_length]
  have hsince : since (lines content) (front ++ block).length = line :: more := by
    rw [h.lines_eq, since_length]
  rw [hbefore, hsince, List.flatten_append, List.flatten_append, List.flatten_singleton]
  exact keeps_insert hkept (List.cons_ne_nil _ _) closed_newBlock

theorem mergeTop_ne_of_lt {startIdx endIdx : Nat}
    (hstart : find (mentions rowOneMarker) (lines content) = startIdx)
    (hend : find (mentions rowTwoMarker) (lines content) = endIdx)
    (hreversed : endIdx < startIdx) (hinside : startIdx < (lines content).length) :
    mergeTop content ≠ content := by
  rw [mergeTop_eq, hstart, hend, place_natCast, place_natCast, Nat.min_eq_left hinside.le,
    Nat.min_eq_left (hreversed.trans hinside).le]
  exact insert_ne_of_overlap hreversed.le newBlock_ne_nil

theorem mergeTop_ne_of_no_start
    (hstart : find (mentions rowOneMarker) (lines content) = -1) : mergeTop content ≠ content := by
  rw [mergeTop_eq, hstart, place_neg_one]
  refine insert_ne_of_overlap ?_ newBlock_ne_nil
  rcases find_cases (mentions rowTwoMarker) (lines content) with
    ⟨front, item, tail, hlines, -, -, hend⟩ | ⟨-, hend⟩
  · rw [hend, place_natCast, hlines, List.length_append, List.length_cons]
    omega
  · rw [hend, place_neg_one]

theorem mergeTop_ne_of_no_end {front tail : List Text} {line : Text}
    (hlines : lines content = front ++ line :: tail) (hmarker : mentions rowOneMarker line)
    (hstart : find (mentions rowOneMarker) (lines content) = front.length)
    (hend : find (mentions rowTwoMarker) (lines content) = -1) : mergeTop content ≠ content := by
  have hlength : (lines content).length = front.length + tail.length + 1 := by
    rw [hlines, List.length_append, List.length_cons]
    omega
  by_cases htail : tail = []
  · rw [mergeTop_eq, hstart, hend, place_natCast, place_neg_one]
    refine insert_ne_of_overlap ?_ newBlock_ne_nil
    rw [hlength, htail]
    simp
  · have hfull : Full line := by
      have hcut : lines content = (front ++ [line]) ++ tail := by rw [hlines]; simp
      exact ((areLines_append htail).mp (hcut ▸ areLines_lines content)).1 line (by simp)
    have hfront : (lines content).take front.length = front := by rw [hlines, List.take_left]
    rw [mergeTop_eq, hstart, place_natCast, Nat.min_eq_left (by omega), hfront]
    intro hsame
    have hcontent := flatten_lines content
    rw [hlines, List.flatten_append, List.flatten_cons] at hcontent
    conv_rhs at hsame => rw [← hcontent]
    rw [List.append_assoc] at hsame
    exact newBlock_append_ne hfull hmarker (List.append_cancel_left hsame)

theorem mergeTopSafe_iff (content : Text) :
    MergeTopSafe content ↔ ∃ front block tail, Merges (lines content) front block tail := by
  constructor
  · rintro (hsame | ⟨front, block, tail, h, -⟩)
    · rcases find_cases (mentions rowOneMarker) (lines content) with
        ⟨front, line, tail, hlines, hfront, hline, hstart⟩ | ⟨-, hstart⟩
      · rcases find_cases (mentions rowTwoMarker) (lines content) with
          ⟨front', line', tail', hlines', hfront', hline', hend⟩ | ⟨-, hend⟩
        · by_cases horder : front.length ≤ front'.length
          · obtain ⟨block, rfl⟩ : front <+: front' :=
              List.prefix_of_prefix_length_le ⟨line :: tail, hlines.symm⟩
                ⟨line' :: tail', hlines'.symm⟩ horder
            have hstarts : block ++ line' :: tail' = line :: tail := by
              rw [hlines, List.append_assoc] at hlines'
              exact (List.append_cancel_left hlines').symm
            exact ⟨front, block, line' :: tail', hlines', hfront, ⟨line, tail, hstarts, hline⟩,
              hfront', ⟨line', tail', rfl, hline'⟩⟩
          · have hinside : front.length < (lines content).length := by
              rw [hlines, List.length_append, List.length_cons]
              omega
            exact absurd hsame (mergeTop_ne_of_lt hstart hend (not_le.mp horder) hinside)
        · exact absurd hsame (mergeTop_ne_of_no_end hlines hline hstart hend)
      · exact absurd hsame (mergeTop_ne_of_no_start hstart)
    · exact ⟨front, block, tail, h⟩
  · rintro ⟨front, block, tail, h⟩
    exact mergeTopSafe_of_merges h

end MergeTop

/-! ## move_back.py -/

/-- All three markers are found, and what is outside the block is kept. -/
def MoveBackSafe (content : Text) : Prop :=
  let startIdx := find (mentions apiAddRowCall) (lines content)
  let endIdx := findSince endsSection (lines content) (startIdx + 1)
  let outside := delete (lines content) startIdx endIdx
  let after := (moveBack content).getD content
  after = content ∨ startIdx ≠ -1 ∧ endIdx ≠ -1 ∧ find (mentions withOpen) outside ≠ -1 ∧
    Keeps outside (lines (movedHeading ++ (between (lines content) startIdx endIdx).flatten)) after

theorem findSince_cases (p : Text → Bool) (lines : List Text) (start : Int) :
    start ≤ findSince p lines start ∧ findSince p lines start < lines.length ∨
      findSince p lines start = -1 := by
  rw [findSince]
  split
  · next index hfound =>
      refine .inl ?_
      obtain ⟨step, hstep, rfl⟩ := List.mem_map.mp (List.mem_of_find?_eq_some hfound)
      have := List.mem_range.mp hstep
      omega
  · exact .inr rfl

theorem closed_movedHeading : Closed movedHeading := by
  have hbreak : movedHeading =
      "\n    # ROW 7: Web Vitals & Page Performance".toList ++ ['\n'] := by decide
  rw [hbreak]
  exact closed_append_break _

theorem moveBack_cases (content : Text) :
    let startIdx := find (mentions apiAddRowCall) (lines content)
    let endIdx := findSince endsSection (lines content) (startIdx + 1)
    let outside := delete (lines content) startIdx endIdx
    let insertIdx := find (mentions withOpen) outside
    moveBack content = none ∨ startIdx ≠ -1 ∧ endIdx ≠ -1 ∧ insertIdx ≠ -1 ∧
      moveBack content = some (before outside insertIdx ++ [movedHeading] ++
        between (lines content) startIdx endIdx ++ since outside insertIdx).flatten := by
  intro startIdx endIdx outside insertIdx
  by_cases hstart : startIdx = -1
  · refine .inl ?_
    simp only [moveBack]
    rw [if_pos hstart]
    rfl
  by_cases hend : endIdx = -1
  · refine .inl ?_
    simp only [moveBack]
    rw [if_neg hstart, if_pos hend]
    rfl
  by_cases hinsert : insertIdx = -1
  · refine .inl ?_
    simp only [moveBack]
    rw [if_neg hstart, if_neg hend, if_pos hinsert]
    rfl
  · refine .inr ⟨hstart, hend, hinsert, ?_⟩
    simp only [moveBack]
    rw [if_neg hstart, if_neg hend, if_neg hinsert]
    rfl

theorem moveBackSafe (content : Text) : MoveBackSafe content := by
  rcases moveBack_cases content with hnone | ⟨hstart, hend, hinsert, hsome⟩
  · exact .inl (by rw [hnone, Option.getD_none])
  · refine .inr ⟨hstart, hend, hinsert, ?_⟩
    rw [hsome, Option.getD_some]
    obtain ⟨start, hstartAt, -⟩ := find_lt hstart
    obtain ⟨hafter, hbefore⟩ := (findSince_cases endsSection (lines content) _).resolve_right hend
    obtain ⟨insert, hinsertAt, hinside⟩ := find_lt hinsert
    obtain ⟨stop, hstopAt⟩ := Int.eq_ofNat_of_zero_le (by omega : 0 ≤ findSince endsSection
      (lines content) (find (mentions apiAddRowCall) (lines content) + 1))
    rw [hstopAt] at hafter hbefore
    rw [hstopAt, hstartAt] at hinsertAt hinside ⊢
    obtain ⟨hfull, hkept⟩ := areLines_cut (areLines_lines content) (by omega : start ≤ stop)
      (by omega)
    rw [← delete_natCast (by omega) (by omega)] at hkept
    have hblock : ∀ line ∈ between (lines content) start stop, Closed line := by
      intro line hline
      rw [between_natCast (by omega) (by omega)] at hline
      exact closed_of_full (hfull line (List.mem_of_mem_drop hline))
    have hkeeps := keeps_at hkept hinside
      (closed_append closed_movedHeading (closed_flatten hblock))
    rw [hinsertAt, before_natCast hinside.le, since_natCast hinside.le]
    simpa only [List.flatten_append, List.flatten_singleton, List.append_assoc] using hkeeps

end NexPulse.Dashboard
