import StructEdit.Proofs.Text.Translation

namespace StructEdit.Text

variable {s t line : Text} {p q : Point}

/-- The point is on a line of the text and not past its end. -/
def HasPoint (t : Text) (p : Point) : Prop :=
  ∃ line, t.line? p.row = some line ∧ p.column ≤ line.size .utf16

theorem newline_not_mem_firstLine (t : Text) : '\n' ∉ t.firstLine := by
  intro h
  simpa using List.mem_takeWhile_imp h

theorem exists_append_of_row_le {row : Nat} (h : row ≤ t.count '\n') :
    ∃ before rest, t = before ++ rest ∧ before.count '\n' = row ∧ before.lastLine = [] := by
  induction row with
  | zero => exact ⟨[], t, rfl, rfl, rfl⟩
  | succ row ih =>
    obtain ⟨before, rest, rfl, hcount, _⟩ := ih (Nat.le_of_succ_le h)
    have hmem : '\n' ∈ rest := by
      rw [List.count_append] at h
      exact List.count_pos_iff.mp (by omega)
    obtain ⟨line, after, rfl, hline⟩ := List.eq_append_cons_of_mem hmem
    refine ⟨before ++ line ++ ['\n'], after, by simp, ?_, lastLine_concat_newline _⟩
    rw [List.count_append, List.count_append, hcount, List.count_eq_zero_of_not_mem hline]
    rfl

theorem exists_append_of_line? {row : Nat} (h : t.line? row = some line) :
    ∃ before rest, t = before ++ rest ∧ before.count '\n' = row ∧ before.lastLine = [] ∧
      rest.firstLine = line := by
  obtain ⟨before, rest, rfl, rfl, hlast⟩ := exists_append_of_row_le (row_le_of_line? h)
  rw [line?_append, hlast, List.nil_append, Option.some.injEq] at h
  exact ⟨before, rest, rfl, rfl, hlast, h⟩

theorem newline_not_mem_of_mem_lines (h : line ∈ t.lines) : '\n' ∉ line := by
  obtain ⟨row, hrow⟩ := List.mem_iff_getElem?.mp h
  obtain ⟨_, rest, _, _, _, rfl⟩ := exists_append_of_line? hrow
  exact newline_not_mem_firstLine rest

/-- The points of a text are those in the last lines of its beginnings. -/
theorem hasPoint_iff : t.HasPoint p ↔
    ∃ s : Text, s <+: t ∧ s.count '\n' = p.row ∧ p.column ≤ s.lastLine.size .utf16 := by
  constructor
  · rintro ⟨line, hline, hcolumn⟩
    obtain ⟨before, rest, rfl, hcount, hlast, rfl⟩ := exists_append_of_line? hline
    have hnewline := newline_not_mem_firstLine rest
    refine ⟨before ++ rest.firstLine, ?_, ?_, ?_⟩
    · exact (List.prefix_append_right_inj before).mpr (List.takeWhile_prefix _)
    · rw [List.count_append, List.count_eq_zero_of_not_mem hnewline, hcount, Nat.add_zero]
    · rw [lastLine_append before hnewline, hlast]
      exact hcolumn
  · rintro ⟨s, ⟨r, rfl⟩, hcount, hcolumn⟩
    refine ⟨s.lastLine ++ firstLine r, hcount ▸ line?_append s r, hcolumn.trans ?_⟩
    exact size_le_append .utf16 _ _

theorem HasPoint.mono (h : s <+: t) (hp : s.HasPoint p) : t.HasPoint p := by
  obtain ⟨a, ha, hrow, hcolumn⟩ := hasPoint_iff.mp hp
  exact hasPoint_iff.mpr ⟨a, ha.trans h, hrow, hcolumn⟩

theorem hasPoint_endPoint (h : s <+: t) : t.HasPoint s.endPoint :=
  hasPoint_iff.mpr ⟨s, h, rfl, Nat.le_refl _⟩

theorem HasPoint.le_endPoint (h : t.HasPoint p) : p ≤ t.endPoint := by
  obtain ⟨s, hs, hrow, hcolumn⟩ := hasPoint_iff.mp h
  have hle : p ≤ s.endPoint := Location.le_def.mpr (.inr ⟨hrow.symm, hcolumn⟩)
  exact hle.trans (endPoint_le_of_isPrefix hs)

theorem HasPoint.firstReaching (h : t.HasPoint p) : (t.firstReaching p).HasPoint p := by
  obtain ⟨s, ⟨r, rfl⟩, hrow, hcolumn⟩ := hasPoint_iff.mp h
  have hle : p ≤ s.endPoint := Location.le_def.mpr (.inr ⟨hrow.symm, hcolumn⟩)
  rw [firstReaching_append s r hle]
  have hreached : p ≤ (s.firstReaching p).endPoint := by
    rcases s.le_endPoint_firstReaching p with hreached | hall
    · exact hreached
    · rw [hall]
      exact hle
  have hcount := (s.firstReaching_isPrefix p).sublist.count_le '\n'
  obtain ⟨hrow', hcolumn'⟩ : p.row = (s.firstReaching p).endPoint.row ∧
      p.column ≤ (s.firstReaching p).endPoint.column := by
    rcases Location.le_def.mp hreached with hlt | heq
    · change p.row < (s.firstReaching p).count '\n' at hlt
      omega
    · exact heq
  exact hasPoint_iff.mpr ⟨_, List.prefix_refl _, hrow'.symm, hcolumn'⟩

theorem HasPoint.exists_toBytePoint (hp : s.HasPoint p) (h : s <+: t)
    (hsize : s.size .utf8 < addressLimit) : ∃ q, t.toBytePoint p = .ok q := by
  obtain ⟨a, ha, hrow, hcolumn⟩ := hasPoint_iff.mp hp
  obtain ⟨r, rfl⟩ := ha.trans h
  have hline := line?_append a r
  rw [hrow] at hline
  refine ⟨_, toBytePoint_of_line hline ?_⟩
  calc convert .utf16 .utf8 (a.lastLine ++ firstLine r) p.column
      ≤ a.lastLine.size .utf8 := (convert_le_size_iff _ _).mpr hcolumn
    _ ≤ a.size .utf8 := size_lastLine_le .utf8 a
    _ ≤ s.size .utf8 := size_le_of_isInfix .utf8 ha.isInfix
    _ < addressLimit := hsize

/-- The nearest point of the text. -/
def clamp (t : Text) (p : Point) : Point :=
  match t.line? p.row with
  | some line => ⟨p.row, min p.column (line.size .utf16)⟩
  | none => t.endPoint

theorem clamp_of_line (h : t.line? p.row = some line) :
    t.clamp p = ⟨p.row, min p.column (line.size .utf16)⟩ := by
  simp only [clamp, h]

theorem clamp_of_no_line (h : t.line? p.row = none) : t.clamp p = t.endPoint := by
  simp only [clamp, h]

theorem HasPoint.clamp_eq (h : t.HasPoint p) : t.clamp p = p := by
  obtain ⟨line, hline, hcolumn⟩ := h
  rw [clamp_of_line hline, Nat.min_eq_left hcolumn]

theorem hasPoint_clamp (t : Text) (p : Point) : t.HasPoint (t.clamp p) := by
  cases hline : t.line? p.row with
  | none =>
    rw [clamp_of_no_line hline]
    exact hasPoint_endPoint (List.prefix_refl t)
  | some line =>
    rw [clamp_of_line hline]
    exact ⟨line, hline, Nat.min_le_right _ _⟩

theorem clamp_of_endPoint_le (h : t.endPoint ≤ p) : t.clamp p = t.endPoint := by
  cases hline : t.line? p.row with
  | none => exact clamp_of_no_line hline
  | some line =>
    have hrow := row_le_of_line? hline
    obtain ⟨heq, hcolumn⟩ : t.count '\n' = p.row ∧ t.lastLine.size .utf16 ≤ p.column := by
      rcases Location.le_def.mp h with hlt | heq
      · exact absurd hrow (Nat.not_le.mpr hlt)
      · exact heq
    have hlast := line?_count t
    rw [heq, hline, Option.some.injEq] at hlast
    rw [clamp_of_line hline, hlast, Nat.min_eq_right hcolumn, endPoint, heq]

theorem clamp_le_clamp (h : p ≤ q) : t.clamp p ≤ t.clamp q := by
  cases hq : t.line? q.row with
  | none =>
    rw [clamp_of_no_line hq]
    exact (t.hasPoint_clamp p).le_endPoint
  | some line =>
    rcases Location.le_def.mp h with hrow | ⟨hrow, hcolumn⟩
    · have hlines : q.row < t.lines.length := (List.getElem?_eq_some_iff.mp hq).1
      have hp : t.line? p.row = some _ := List.getElem?_eq_getElem (hrow.trans hlines)
      rw [clamp_of_line hp, clamp_of_line hq]
      exact Location.le_def.mpr (.inl hrow)
    · rw [clamp_of_line (hrow ▸ hq), clamp_of_line hq]
      exact Location.le_def.mpr (.inr ⟨hrow, by dsimp only; omega⟩)

theorem upTo_min_size {e : Encoding} (t : Text) (n : Nat) :
    t.upTo e (min n (t.size e)) = t.upTo e n := by
  rcases Nat.le_total n (t.size e) with hle | hle
  · rw [Nat.min_eq_left hle]
  · rw [Nat.min_eq_right hle, upTo_of_size_le (Nat.le_refl _), upTo_of_size_le hle]

theorem min_convert_size {e f : Encoding} (t : Text) (n : Nat) :
    min (t.convert e f n) (t.size f) = size f (t.upTo e n) := by
  have hle := size_le_of_isInfix f (upTo_isPrefix e t n).isInfix
  rcases Nat.le_total n (t.size e) with hn | hn
  · rw [convert_of_le hn, Nat.min_eq_left hle]
  · rw [convert_of_size_le hn, Nat.min_eq_right (Nat.le_add_right _ _), upTo_of_size_le hn]

theorem reach_of_column_le {e : Encoding} {target start : Location e} (r : Text)
    (hrow : target.row = start.row)
    (hcolumn : target.column ≤ start.column + r.firstLine.size e) :
    reach target start r = r.firstLine.upTo e (target.column - start.column) := by
  induction r generalizing start with
  | nil => rfl
  | cons c r ih =>
    by_cases hle : target.column ≤ start.column
    · rw [reach, if_pos (Location.le_def.mpr (.inr ⟨hrow, hle⟩)), Nat.sub_eq_zero_of_le hle,
        upTo_zero]
    · have hc : c ≠ '\n' := by
        rintro rfl
        exact hle hcolumn
      have hfirst : firstLine (c :: r) = c :: firstLine r := by
        rw [firstLine, List.takeWhile_cons_of_pos (by simpa using hc)]
        rfl
      have hnot : ¬target ≤ start := by
        rw [Location.le_def]
        omega
      have hadvance : start.advance c = ⟨start.row, start.column + e.size c⟩ := if_neg hc
      rw [hfirst, size_cons, ← Nat.add_assoc] at hcolumn
      rw [reach, if_neg hnot, hadvance, @ih ⟨start.row, start.column + e.size c⟩ hrow hcolumn,
        hfirst, upTo, if_neg (by omega), Nat.sub_sub]

theorem firstReaching_of_lineStart {before rest : Text} (hlast : before.lastLine = [])
    (hrow : before.count '\n' = p.row) (hcolumn : p.column ≤ rest.firstLine.size .utf16) :
    (before ++ rest).firstReaching p = before ++ rest.firstLine.upTo .utf16 p.column := by
  have hend : before.endPoint = ⟨p.row, 0⟩ := by
    rw [endPoint, hlast, hrow]
    rfl
  have hle : before.endPoint ≤ p := by
    rw [hend]
    exact Location.le_def.mpr (.inr ⟨rfl, Nat.zero_le _⟩)
  have hscan : reach p ⟨p.row, 0⟩ rest = rest.firstLine.upTo .utf16 (p.column - 0) := by
    refine reach_of_column_le rest ?_ ?_
    · rfl
    · rw [Nat.zero_add]
      exact hcolumn
  rw [← append_reach_eq_firstReaching before rest hle, hend, hscan, Nat.sub_zero]

/-- The byte offset of a point is where the scan for its nearest point ends. -/
theorem byteOf_eq {q : BytePoint} (hq : t.toBytePoint p = .ok q) :
    t.byteOf p = .ok ((t.firstReaching (t.clamp p)).size .utf8) := by
  rcases toBytePoint_eq_ok hq with ⟨hline, _⟩ | ⟨line, hline, rfl⟩
  · rw [clamp_of_no_line hline, firstReaching_of_endPoint_le (le_refl _), byteOf, hline]
    split
    · next h => cases h
    · rfl
  · obtain ⟨before, rest, rfl, hrow, hlast, rfl⟩ := exists_append_of_line? hline
    obtain ⟨start, hstart, hbefore⟩ := lineStarts_append before rest
    rw [hrow] at hstart
    rw [hlast, size_nil, Nat.add_zero] at hbefore
    have hscan :
        (before ++ rest).firstReaching ⟨p.row, min p.column (rest.firstLine.size .utf16)⟩ =
        before ++ rest.firstLine.upTo .utf16 (min p.column (rest.firstLine.size .utf16)) := by
      refine firstReaching_of_lineStart hlast hrow ?_
      exact Nat.min_le_right _ _
    rw [clamp_of_line hline, hscan, upTo_min_size, size_append, ← min_convert_size, ← hbefore,
      byteOf, hq]
    simp only [hstart, hline]
    rfl

theorem HasPoint.byteOf_of_isPrefix {t' : Text} (hp : t.HasPoint p)
    (hsize : t.size .utf8 < addressLimit) (h : t.firstReaching p <+: t') :
    t'.byteOf p = .ok ((t.firstReaching p).size .utf8) := by
  have hs : (t.firstReaching p).HasPoint p := hp.firstReaching
  have hbytes := size_le_of_isInfix .utf8 (t.firstReaching_isPrefix p).isInfix
  obtain ⟨q, hq⟩ := hs.exists_toBytePoint h (lt_of_le_of_lt hbytes hsize)
  have hsame : t'.firstReaching p = t.firstReaching p := by
    obtain ⟨r, hr⟩ := t.firstReaching_isPrefix p
    obtain ⟨r', hr'⟩ := h
    have hscan := firstReaching_append (t.firstReaching p) r hs.le_endPoint
    have hscan' := firstReaching_append (t.firstReaching p) r' hs.le_endPoint
    rw [hr] at hscan
    rw [hr'] at hscan'
    exact hscan'.trans hscan.symm
  rw [Text.byteOf_eq hq, (hs.mono h).clamp_eq, hsame]

theorem exists_append_of_le {p' q' : BytePoint} (hp : t.toBytePoint p = .ok p')
    (hq : t.toBytePoint q = .ok q') (h : p ≤ q) :
    ∃ before inner after, t = before ++ inner ++ after ∧ t.byteOf p = .ok (before.size .utf8) ∧
      t.byteOf q = .ok (size .utf8 (before ++ inner)) := by
  have hprefix : t.firstReaching (t.clamp p) <+: t.firstReaching (t.clamp q) :=
    firstReaching_isPrefix_of_le (clamp_le_clamp h)
  obtain ⟨inner, hinner⟩ := hprefix
  obtain ⟨after, hafter⟩ := t.firstReaching_isPrefix (t.clamp q)
  refine ⟨t.firstReaching (t.clamp p), inner, after, ?_, byteOf_eq hp, ?_⟩
  · rw [hinner, hafter]
  · rw [hinner]
    exact byteOf_eq hq

theorem firstReaching_clamp (h : t.lineCount ≤ p.row + 1 ∨ t.HasPoint p) :
    t.firstReaching (t.clamp p) = t.firstReaching p := by
  rcases le_or_gt t.endPoint p with hle | hlt
  · rw [clamp_of_endPoint_le hle, firstReaching_of_endPoint_le (le_refl _),
      firstReaching_of_endPoint_le hle]
  · have hp : t.HasPoint p := by
      rcases h with hrow | hp
      · rw [lineCount, length_lines] at hrow
        rw [Location.lt_def] at hlt
        change p.row < t.count '\n' ∨ p.row = t.count '\n' ∧
          p.column < t.lastLine.size .utf16 at hlt
        exact hasPoint_iff.mpr ⟨t, List.prefix_refl t, by omega, by omega⟩
      · exact hp
    rw [hp.clamp_eq]

/-- Past the end of a row the scan goes on to the start of the next one. -/
theorem exists_append_of_past_line (hline : t.line? p.row = some line)
    (hrow : p.row + 1 < t.lineCount) (hcolumn : line.size .utf16 < p.column) :
    ∃ before after, t = before ++ '\n' :: after ∧ before.count '\n' = p.row ∧
      t.firstReaching (t.clamp p) = before ∧ t.firstReaching p = before ++ ['\n'] := by
  obtain ⟨start, rest, rfl, hcount, hlast, rfl⟩ := exists_append_of_line? hline
  have hmem : '\n' ∈ rest := by
    rw [lineCount, length_lines, List.count_append] at hrow
    exact List.count_pos_iff.mp (by omega)
  obtain ⟨line, after, rfl, hnewline⟩ := List.eq_append_cons_of_mem hmem
  rw [firstLine_append_newline after hnewline] at hline hcolumn
  have hend : endPoint (start ++ line) = ⟨p.row, size .utf16 line⟩ := by
    rw [endPoint, lastLine_append start hnewline, hlast, List.count_append, hcount,
      List.count_eq_zero_of_not_mem hnewline]
    rfl
  have hle : endPoint (start ++ line) ≤ p := by
    rw [hend]
    exact Location.le_def.mpr (.inr ⟨rfl, Nat.le_of_lt hcolumn⟩)
  have hscan : reach p (endPoint (start ++ line)) ('\n' :: after) = ['\n'] := by
    have hnot : ¬p ≤ ⟨p.row, size .utf16 line⟩ := by
      rw [Location.le_def]
      dsimp only
      omega
    rw [hend, reach, if_neg hnot, Location.advance, if_pos rfl]
    have hnext : p ≤ ⟨p.row + 1, 0⟩ := Location.le_def.mpr (.inl (Nat.lt_succ_self _))
    exact congrArg ('\n' :: ·) (reach_append_of_le [] after hnext)
  refine ⟨start ++ line, after, (List.append_assoc _ _ _).symm, ?_, ?_, ?_⟩
  · exact congrArg Location.row hend
  · rw [clamp_of_line hline, Nat.min_eq_right (Nat.le_of_lt hcolumn), ← hend,
      ← List.append_assoc, firstReaching_endPoint]
  · rw [← List.append_assoc, ← append_reach_eq_firstReaching _ _ hle, hscan]

end StructEdit.Text
