import Mathlib.Algebra.GroupWithZero.Nat
import StructEdit.Proofs.Text.Clamp

namespace StructEdit

theorem Encoding.size_newline (e : Encoding) : e.size '\n' = 1 := by
  cases e with
  | utf8 => rfl
  | utf16 => rfl

namespace Text

variable {e : Encoding} {t line before : Text} {row : Nat}

theorem length_lineStarts (t : Text) : t.lineStarts.length = t.lineCount := by
  rw [lineStarts, List.length_cons, length_startsAfter, lineCount, length_lines]

/-- The lines make up the text, but for a unit for each line feed. -/
theorem sum_size_lines (e : Encoding) (t : Text) :
    (t.lines.map (size e)).sum + t.count '\n' = size e t := by
  induction t with
  | nil => rfl
  | cons c t ih =>
    obtain ⟨first, others, hl⟩ := List.exists_cons_of_ne_nil (lines_ne_nil t)
    rw [lines, size_cons, ← ih]
    by_cases hc : c = '\n'
    · rw [if_pos hc, hc, List.count_cons_self, List.map_cons, List.sum_cons, size_nil,
        e.size_newline]
      omega
    · rw [if_neg hc, List.count_cons_of_ne hc, hl]
      simp only [List.map_cons, List.sum_cons, size_cons]
      omega

theorem size_of_lineStart (rest : Text) (hlast : before.lastLine = []) :
    size e before =
      (((before ++ rest).lines.take (before.count '\n')).map (size e)).sum +
        before.count '\n' := by
  rcases lastLine_cases before with ⟨_, hbefore⟩ | ⟨a, l, rfl, _, hl⟩
  · rw [hlast] at hbefore
    subst hbefore
    rfl
  · rw [hlast] at hl
    subst hl
    have hcount : (a ++ ['\n']).count '\n' = a.lines.length := by
      rw [List.count_append, length_lines]
      rfl
    rw [hcount, List.append_assoc, List.singleton_append, lines_append_newline, List.take_left,
      size_append, ← sum_size_lines, size_cons, size_nil, e.size_newline, length_lines]
    omega

/-- The byte before the line feed in front of the next row, or the end of the text. -/
def lineStop (t : Text) (row : Nat) : Nat :=
  match t.lineStarts[row + 1]? with
  | some next => next - 1
  | none => t.size .utf8

theorem lineStop_of_next {next : Nat} (h : t.lineStarts[row + 1]? = some next) :
    t.lineStop row = next - 1 := by
  simp only [lineStop, h]

theorem lineStop_of_last (h : t.lineStarts[row + 1]? = none) :
    t.lineStop row = t.size .utf8 := by
  simp only [lineStop, h]

theorem exists_append_of_lineStarts (h : t.line? row = some line) :
    ∃ before after, t = before ++ line ++ after ∧
      t.lineStarts[row]? = some (before.size .utf8) ∧
      before.size .utf8 = ((t.lines.take row).map (size .utf8)).sum + row ∧
      t.lineStop row = size .utf8 (before ++ line) := by
  obtain ⟨before, rest, rfl, rfl, hlast, rfl⟩ := exists_append_of_line? h
  obtain ⟨start, hstart, hbefore⟩ := lineStarts_append before rest
  rw [hlast, size_nil, Nat.add_zero] at hbefore
  rw [hbefore] at hstart
  have hsum : before.size .utf8 = _ := size_of_lineStart rest hlast
  by_cases hmem : '\n' ∈ rest
  · obtain ⟨line, after, rfl, hnewline⟩ := List.eq_append_cons_of_mem hmem
    have hcount : (before ++ line ++ ['\n']).count '\n' = before.count '\n' + 1 := by
      rw [List.count_append, List.count_append, List.count_eq_zero_of_not_mem hnewline]
      rfl
    have htext : before ++ (line ++ '\n' :: after) = before ++ line ++ ['\n'] ++ after := by
      simp
    obtain ⟨next, hnext, hsize⟩ := lineStarts_append (before ++ line ++ ['\n']) after
    rw [lastLine_concat_newline, size_nil, Nat.add_zero] at hsize
    rw [hcount, hsize, ← htext] at hnext
    rw [firstLine_append_newline after hnewline]
    refine ⟨before, '\n' :: after, (List.append_assoc _ _ _).symm, hstart, hsum, ?_⟩
    rw [lineStop_of_next hnext, size_append _ (before ++ line)]
    rfl
  · have hnext : (before ++ rest).lineStarts[before.count '\n' + 1]? = none := by
      rw [List.getElem?_eq_none_iff, length_lineStarts, lineCount, length_lines,
        List.count_append, List.count_eq_zero_of_not_mem hmem]
    rw [firstLine_eq_self hmem]
    exact ⟨before, [], (List.append_nil _).symm, hstart, hsum, lineStop_of_last hnext⟩

/-- The lines are the parts of the text between its line feeds, where the table has them. -/
theorem lines_partition_text (t : Text) :
    t.lineCount = t.count '\n' + 1 ∧ t.lineStarts.length = t.lineCount ∧
    (∀ row, (∃ line, t.line? row = some line) ↔ row < t.lineCount) ∧
    (∀ line ∈ t.lines, '\n' ∉ line) ∧ ['\n'].intercalate t.lines = t ∧
    ∀ row line, t.line? row = some line → ∃ start, t.lineStarts[row]? = some start ∧
      start = ((t.lines.take row).map (size .utf8)).sum + row ∧
      t.slice start (t.lineStop row) = .ok line := by
  refine ⟨length_lines t, length_lineStarts t, ?_, fun _ => newline_not_mem_of_mem_lines, ?_,
    ?_⟩
  · intro row
    constructor
    · intro ⟨line, hline⟩
      exact (List.getElem?_eq_some_iff.mp hline).1
    · intro hrow
      exact ⟨_, List.getElem?_eq_getElem hrow⟩
  · rw [← joinLines_eq_intercalate, joinLines_lines]
  · intro row line h
    obtain ⟨before, after, htext, hstart, hsum, hstop⟩ := exists_append_of_lineStarts h
    refine ⟨_, hstart, hsum, ?_⟩
    rw [hstop, htext, slice_append_append]

theorem lines_partition_with_empty_lines :
    let t : Text := ['é', '\n', '\n', '😀', 'x', '\n']
    t.lineCount = 4 ∧ ['\n'].intercalate t.lines = t ∧ (∃ line, t.line? 3 = some line) ∧
      ¬(∃ line, t.line? 4 = some line) ∧ t.line? 2 = some ['😀', 'x'] ∧ '\n' ∉ ['😀', 'x'] ∧
      ∃ start, t.lineStarts[2]? = some start ∧ start = (2 + 0) + 2 ∧
        t.slice start 9 = .ok ['😀', 'x'] := by
  intro t
  obtain ⟨hcount, _, hrows, hfeeds, hjoin, hstarts⟩ := lines_partition_text t
  obtain ⟨start, hstart, hsum, hslice⟩ := hstarts 2 ['😀', 'x'] rfl
  have hmem : ['😀', 'x'] ∈ t.lines := List.mem_of_getElem? (i := 2) rfl
  exact ⟨hcount, hjoin, (hrows 3).mpr (by decide), fun h => absurd ((hrows 4).mp h) (by decide),
    rfl, hfeeds _ hmem, start, hstart, hsum, hslice⟩

end Text

end StructEdit
