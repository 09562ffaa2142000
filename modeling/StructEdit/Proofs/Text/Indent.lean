import StructEdit.Proofs.Text.Clamp
import StructEdit.Text.Indent

namespace StructEdit.Text

variable {t first line blanks : Text} {rest : List Text} {n : Nat} {a s shift : Int}

theorem shiftLine_of_nonneg (h : 0 ≤ shift) (line : Text) :
    shiftLine shift line = List.replicate shift.natAbs ' ' ++ line :=
  if_neg (Int.not_lt.mpr h)

theorem shiftLine_of_neg (h : shift < 0) (line : Text) :
    shiftLine shift line = dedentLine shift.natAbs line :=
  if_pos h

theorem shiftLine_zero (line : Text) : shiftLine 0 line = line :=
  shiftLine_of_nonneg (Int.le_refl 0) line

theorem dedentLine_of_blank (h : n ≤ line.length ∧ ∀ c ∈ line.take n, isBlank c) :
    dedentLine n line = line.drop n := by
  rw [dedentLine, if_pos]
  rwa [Bool.and_eq_true, decide_eq_true_eq, List.all_eq_true]

theorem dedentLine_of_not_blank (h : ¬(n ≤ line.length ∧ ∀ c ∈ line.take n, isBlank c)) :
    dedentLine n line = line := by
  rw [dedentLine, if_neg]
  rwa [Bool.and_eq_true, decide_eq_true_eq, List.all_eq_true]

theorem dedentLine_append (h : ∀ c ∈ blanks, isBlank c) (line : Text) :
    dedentLine blanks.length (blanks ++ line) = line := by
  have hlength : blanks.length ≤ (blanks ++ line).length := by
    rw [List.length_append]
    exact Nat.le_add_right _ _
  have hblank : ∀ c ∈ (blanks ++ line).take blanks.length, isBlank c := by
    rwa [List.take_left]
  rw [dedentLine_of_blank ⟨hlength, hblank⟩, List.drop_left]

/-- A line gets spaces in front of it, or it loses blanks from its start, or none. -/
theorem shiftLine_cases (shift : Int) (line : Text) :
    shiftLine shift line = List.replicate shift.natAbs ' ' ++ line ∨
      ∃ blanks : Text, (∀ c ∈ blanks, isBlank c) ∧ line = blanks ++ shiftLine shift line := by
  rcases Int.lt_or_le shift 0 with hneg | hpos
  · rw [shiftLine_of_neg hneg]
    by_cases h : shift.natAbs ≤ line.length ∧ ∀ c ∈ line.take shift.natAbs, isBlank c
    · rw [dedentLine_of_blank h]
      exact .inr ⟨_, h.2, (List.take_append_drop _ line).symm⟩
    · rw [dedentLine_of_not_blank h]
      exact .inr ⟨[], fun c hc => absurd hc List.not_mem_nil, rfl⟩
  · exact .inl (shiftLine_of_nonneg hpos line)

theorem isBlank_of_mem_replicate {c : Char} (h : c ∈ List.replicate n ' ') : isBlank c := by
  rw [List.eq_of_mem_replicate h]
  rfl

theorem trimStart_shiftLine (shift : Int) (line : Text) :
    (shiftLine shift line).trimStart = line.trimStart := by
  rw [trimStart, trimStart]
  rcases shiftLine_cases shift line with hright | ⟨blanks, hblanks, hleft⟩
  · rw [hright, List.dropWhile_append_of_pos fun _ => isBlank_of_mem_replicate]
  · conv_rhs => rw [hleft, List.dropWhile_append_of_pos hblanks]

theorem newline_not_mem_shiftLine (shift : Int) (h : '\n' ∉ line) :
    '\n' ∉ shiftLine shift line := by
  rcases shiftLine_cases shift line with hright | ⟨blanks, _, hleft⟩
  · rw [hright, List.mem_append]
    rintro (hspace | hline)
    · exact absurd (List.eq_of_mem_replicate hspace) (by decide)
    · exact h hline
  · intro hmem
    apply h
    rw [hleft]
    exact List.mem_append_right blanks hmem

theorem shiftLine_shiftLine (ha : 0 ≤ a) (hs : 0 ≤ a + s) (line : Text) :
    shiftLine s (shiftLine a line) = shiftLine (a + s) line := by
  rw [shiftLine_of_nonneg ha, shiftLine_of_nonneg hs]
  rcases Int.lt_or_le s 0 with hneg | hpos
  · have hspaces : a.natAbs = s.natAbs + (a + s).natAbs := by omega
    have hblank : ∀ c ∈ List.replicate s.natAbs ' ', isBlank c :=
      fun _ => isBlank_of_mem_replicate
    have hdedent := dedentLine_append hblank (List.replicate (a + s).natAbs ' ' ++ line)
    rw [List.length_replicate] at hdedent
    rw [shiftLine_of_neg hneg, hspaces, List.replicate_add, List.append_assoc, hdedent]
  · have hspaces : (a + s).natAbs = s.natAbs + a.natAbs := by omega
    rw [shiftLine_of_nonneg hpos, hspaces, List.replicate_add, List.append_assoc]

theorem reindent_eq (h : t.lines = first :: rest) (shift : Int) :
    t.reindent shift = joinLines (first :: rest.map (shiftLine shift)) := by
  rw [reindent, h]

theorem lines_reindent (h : t.lines = first :: rest) (shift : Int) :
    (t.reindent shift).lines = first :: rest.map (shiftLine shift) := by
  have hnewline : ∀ line ∈ first :: rest, '\n' ∉ line := by
    rw [← h]
    exact fun line => newline_not_mem_of_mem_lines
  rw [reindent_eq h]
  -- the text is divided again just where it was joined, as no moved line has a line feed
  apply lines_joinLines (List.cons_ne_nil _ _)
  intro moved hmoved
  rcases List.mem_cons.mp hmoved with rfl | hmoved
  · exact hnewline moved List.mem_cons_self
  · obtain ⟨line, hline, rfl⟩ := List.mem_map.mp hmoved
    exact newline_not_mem_shiftLine shift (hnewline line (List.mem_cons_of_mem first hline))

theorem reindent_reindent (t : Text) (ha : 0 ≤ a) (hs : 0 ≤ a + s) :
    (t.reindent a).reindent s = t.reindent (a + s) := by
  obtain ⟨first, rest, hlines⟩ := List.exists_cons_of_ne_nil (lines_ne_nil t)
  apply eq_of_lines_eq
  rw [lines_reindent (lines_reindent hlines a), lines_reindent hlines, List.map_map]
  congr 2
  funext line
  exact shiftLine_shiftLine ha hs line

theorem reindent_zero (t : Text) : t.reindent 0 = t := by
  obtain ⟨first, rest, hlines⟩ := List.exists_cons_of_ne_nil (lines_ne_nil t)
  apply eq_of_lines_eq
  rw [lines_reindent hlines, hlines, funext shiftLine_zero, List.map_id']

/-- Only a text of one line stays as it is when it is moved right. -/
theorem reindent_eq_self_iff (t : Text) (ha : 0 ≤ a) : t.reindent a = t ↔ a = 0 ∨ '\n' ∉ t := by
  obtain ⟨first, rest, hlines⟩ := List.exists_cons_of_ne_nil (lines_ne_nil t)
  have hcount := length_lines t
  rw [hlines, List.length_cons, Nat.add_right_cancel_iff] at hcount
  constructor
  · intro h
    have hmoved := lines_reindent hlines a
    rw [h, hlines] at hmoved
    cases rest with
    | nil => exact .inr (List.count_eq_zero.mp hcount.symm)
    | cons line rest =>
      simp only [List.map_cons, List.cons.injEq, true_and, shiftLine_of_nonneg ha] at hmoved
      have hlength := congrArg List.length hmoved.1
      rw [List.length_append, List.length_replicate] at hlength
      exact .inl (by omega)
  · rintro (rfl | hnewline)
    · exact reindent_zero t
    · rw [List.count_eq_zero_of_not_mem hnewline, List.length_eq_zero_iff] at hcount
      apply eq_of_lines_eq
      rw [lines_reindent hlines, hlines, hcount, List.map_nil]

/-- Moves to the right add up and can be taken back. -/
theorem reindent_right_then_left (t : Text) (a : Int) (ha : 0 ≤ a) :
    (∀ s, 0 ≤ a + s → (t.reindent a).reindent s = t.reindent (a + s)) ∧
      (t.reindent a).reindent (-a) = t ∧ (t.reindent a = t ↔ a = 0 ∨ '\n' ∉ t) := by
  refine ⟨fun s hs => reindent_reindent t ha hs, ?_, reindent_eq_self_iff t ha⟩
  rw [reindent_reindent t ha (by omega), Int.add_right_neg, reindent_zero]

theorem reindent_right_then_left_of_blank_lines :
    let t : Text := ['{', '\n', '\n', ' ', '\n', '　', '😀', '\n', '}']
    (0 : Int) ≤ 3 ∧ (0 : Int) ≤ 3 + -1 ∧
    t.reindent 3 = ['{', '\n', ' ', ' ', ' ', '\n', ' ', ' ', ' ',
        ' ', '\n', ' ', ' ', ' ', '　', '😀', '\n', ' ', ' ', ' ', '}'] ∧
      (t.reindent 3).reindent (-1) = t.reindent (3 + -1) ∧ (t.reindent 3).reindent (-3) = t ∧
      t.reindent 3 ≠ t := by
  intro t
  obtain ⟨hadd, hback, hsame⟩ := reindent_right_then_left t 3 (by decide)
  refine ⟨by decide, by decide, by decide, hadd (-1) (by decide), hback, ?_⟩
  rw [Ne, hsame]
  decide

theorem line?_reindent_zero (t : Text) (shift : Int) :
    (t.reindent shift).line? 0 = t.line? 0 := by
  obtain ⟨first, rest, hlines⟩ := List.exists_cons_of_ne_nil (lines_ne_nil t)
  rw [line?, line?, lines_reindent hlines, hlines]
  rfl

theorem line?_reindent_succ (t : Text) (shift : Int) (row : Nat) :
    (t.reindent shift).line? (row + 1) = (t.line? (row + 1)).map (shiftLine shift) := by
  obtain ⟨first, rest, hlines⟩ := List.exists_cons_of_ne_nil (lines_ne_nil t)
  rw [line?, line?, lines_reindent hlines, hlines, List.getElem?_cons_succ,
    List.getElem?_cons_succ, List.getElem?_map]

theorem count_newline_reindent (t : Text) (shift : Int) :
    (t.reindent shift).count '\n' = t.count '\n' := by
  obtain ⟨first, rest, hlines⟩ := List.exists_cons_of_ne_nil (lines_ne_nil t)
  have hcount := length_lines t
  have hcount' := length_lines (t.reindent shift)
  rw [hlines, List.length_cons] at hcount
  rw [lines_reindent hlines, List.length_cons, List.length_map] at hcount'
  omega

/-- The text without the blanks at the starts of its lines. -/
def stripLines (t : Text) : Text := joinLines (t.lines.map trimStart)

theorem stripLines_reindent (t : Text) (shift : Int) :
    (t.reindent shift).stripLines = t.stripLines := by
  obtain ⟨first, rest, hlines⟩ := List.exists_cons_of_ne_nil (lines_ne_nil t)
  have htrim : trimStart ∘ shiftLine shift = trimStart := funext (trimStart_shiftLine shift)
  rw [stripLines, stripLines, lines_reindent hlines, hlines, List.map_cons, List.map_cons,
    List.map_map, htrim]

/-- The first line stays, and every later one gains spaces, loses blanks or stays. -/
theorem reindent_moves_later_lines (t : Text) (shift : Int) :
    (t.reindent shift).count '\n' = t.count '\n' ∧ (t.reindent shift).line? 0 = t.line? 0 ∧
      (∀ row line, t.line? (row + 1) = some line →
        ∃ moved, (t.reindent shift).line? (row + 1) = some moved ∧
          (0 ≤ shift → moved = List.replicate shift.natAbs ' ' ++ line) ∧
          (shift < 0 → shift.natAbs ≤ line.length → (∀ c ∈ line.take shift.natAbs, isBlank c) →
            moved = line.drop shift.natAbs) ∧
          (shift < 0 → ¬(shift.natAbs ≤ line.length ∧ ∀ c ∈ line.take shift.natAbs, isBlank c) →
            moved = line)) ∧
      (t.reindent shift).stripLines = t.stripLines := by
  refine ⟨count_newline_reindent t shift, line?_reindent_zero t shift, ?_,
    stripLines_reindent t shift⟩
  intro row line hline
  refine ⟨shiftLine shift line, ?_, fun h => shiftLine_of_nonneg h line, ?_, ?_⟩
  · rw [line?_reindent_succ, hline, Option.map_some]
  · intro hneg hlength hblank
    rw [shiftLine_of_neg hneg, dedentLine_of_blank ⟨hlength, hblank⟩]
  · intro hneg hnot
    rw [shiftLine_of_neg hneg, dedentLine_of_not_blank hnot]

theorem reindent_moves_wide_blanks :
    let t : Text := [' ', ' ', '{', '\n', '　', '\t', 'é', '\n', ' ', 'x', '\n', ' ', ' ']
    let wide : Text := ['　', '\t', 'é']
    let short : Text := [' ', 'x']
    let empty : Text := [' ', ' ']
    t.line? 1 = some wide ∧ 2 ≤ wide.length ∧ (∀ c ∈ wide.take 2, isBlank c) ∧
      (t.reindent (-2)).line? 1 = some ['é'] ∧
      t.line? 2 = some short ∧ ¬(2 ≤ short.length ∧ ∀ c ∈ short.take 2, isBlank c) ∧
      (t.reindent (-2)).line? 2 = some short ∧
      t.line? 3 = some empty ∧ (t.reindent (-2)).line? 3 = some [] ∧
      (t.reindent 2).line? 1 = some (' ' :: ' ' :: wide) ∧
      (t.reindent (-2)).line? 0 = t.line? 0 ∧ (t.reindent (-2)).stripLines = t.stripLines := by
  intro t wide short empty
  have hwide : ∀ c ∈ wide.take 2, isBlank c := List.all_eq_true.mp (by decide)
  have hshort : ¬(2 ≤ short.length ∧ ∀ c ∈ short.take 2, isBlank c) :=
    fun h => absurd (h.2 'x' (by decide)) (by decide)
  have hempty : ∀ c ∈ empty.take 2, isBlank c := List.all_eq_true.mp (by decide)
  obtain ⟨_, hfirst, hleft, hstrip⟩ := reindent_moves_later_lines t (-2)
  obtain ⟨_, _, hright, _⟩ := reindent_moves_later_lines t 2
  obtain ⟨_, hline₁, _, hdrop₁, _⟩ := hleft 0 wide rfl
  obtain ⟨_, hline₂, _, _, hstay₂⟩ := hleft 1 short rfl
  obtain ⟨_, hline₃, _, hdrop₃, _⟩ := hleft 2 empty rfl
  obtain ⟨_, hline, hspaces, _⟩ := hright 0 wide rfl
  rw [hdrop₁ (by decide) (by decide) hwide] at hline₁
  rw [hstay₂ (by decide) hshort] at hline₂
  rw [hdrop₃ (by decide) (by decide) hempty] at hline₃
  rw [hspaces (by decide)] at hline
  exact ⟨rfl, by decide, hwide, hline₁, rfl, hshort, hline₂, rfl, hline₃, hline, hfirst, hstrip⟩

end StructEdit.Text
