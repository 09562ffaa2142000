import StructEdit.Proofs.Text.Reading
import StructEdit.Text.Position

namespace StructEdit.Text

theorem lines_eq_splitOn (t : Text) : lines t = t.splitOn '\n' := by
  induction t with
  | nil => rfl
  | cons c t ih =>
    rw [lines, List.splitOn_cons_eq_if_modifyHead, ih]
    obtain ⟨line, rest, hl⟩ := List.exists_cons_of_ne_nil (List.splitOn_ne_nil '\n' t)
    simp only [hl, beq_iff_eq, List.modifyHead_cons]

theorem lines_append_newline (a b : Text) : lines (a ++ '\n' :: b) = lines a ++ lines b := by
  simp only [lines_eq_splitOn]
  exact List.splitOn_append_cons_self a b

theorem joinLines_eq_intercalate (ls : List Text) : joinLines ls = ['\n'].intercalate ls := by
  induction ls with
  | nil => rfl
  | cons line rest ih =>
    cases rest with
    | nil => exact List.intercalate_singleton.symm
    | cons next rest =>
      rw [joinLines, ih, List.intercalate_cons_cons, List.append_assoc]
      · rfl
      · exact List.cons_ne_nil next rest

theorem joinLines_lines (t : Text) : joinLines t.lines = t := by
  rw [joinLines_eq_intercalate, lines_eq_splitOn, List.intercalate_splitOn]

theorem eq_of_lines_eq {s t : Text} (h : s.lines = t.lines) : s = t := by
  rw [← joinLines_lines s, h, joinLines_lines]

theorem lines_joinLines {ls : List Text} (hne : ls ≠ []) (h : ∀ line ∈ ls, '\n' ∉ line) :
    (joinLines ls).lines = ls := by
  rw [lines_eq_splitOn, joinLines_eq_intercalate, List.splitOn_intercalate '\n' h hne]

theorem length_lines (t : Text) : (lines t).length = t.count '\n' + 1 := by
  induction t with
  | nil => rfl
  | cons c t ih =>
    obtain ⟨line, rest, hl⟩ := List.exists_cons_of_ne_nil (lines_ne_nil t)
    rw [lines]
    by_cases hc : c = '\n'
    · rw [if_pos hc, List.length_cons, ih, hc, List.count_cons_self]
    · rw [if_neg hc, List.count_cons_of_ne hc, ← ih, hl]
      rfl

def firstLine (t : Text) : Text := t.takeWhile (· ≠ '\n')

theorem head?_lines (t : Text) : (lines t).head? = some t.firstLine := by
  induction t with
  | nil => rfl
  | cons c t ih =>
    obtain ⟨line, rest, hl⟩ := List.exists_cons_of_ne_nil (lines_ne_nil t)
    rw [lines, firstLine, List.takeWhile_cons]
    by_cases hc : c = '\n'
    · simp [hc]
    · rw [hl] at ih ⊢
      simp only [List.head?_cons, Option.some.injEq] at ih
      simp [hc, ih, firstLine]

theorem firstLine_append (b : Text) {a : Text} (h : '\n' ∉ a) :
    firstLine (a ++ b) = a ++ b.firstLine := by
  apply List.takeWhile_append_of_pos
  intro c hc
  have hne : c ≠ '\n' := by
    rintro rfl
    exact h hc
  exact decide_eq_true hne

theorem firstLine_eq_self {t : Text} (h : '\n' ∉ t) : t.firstLine = t := by
  have happend := firstLine_append [] h
  rw [List.append_nil] at happend
  exact happend.trans (List.append_nil t)

theorem firstLine_append_newline (b : Text) {a : Text} (h : '\n' ∉ a) :
    firstLine (a ++ '\n' :: b) = a := by
  rw [firstLine_append _ h]
  exact List.append_nil a

theorem lastLine_cases (s : Text) :
    '\n' ∉ s ∧ s.lastLine = s ∨ ∃ a l, s = a ++ '\n' :: l ∧ '\n' ∉ l ∧ s.lastLine = l := by
  induction s using List.reverseRecOn with
  | nil => exact .inl ⟨List.not_mem_nil, rfl⟩
  | append_singleton s c ih =>
    by_cases hc : c = '\n'
    · subst hc
      exact .inr ⟨s, [], rfl, List.not_mem_nil, lastLine_concat_newline s⟩
    · rw [lastLine_concat s hc]
      rcases ih with ⟨hn, hs⟩ | ⟨a, l, ha, hn, hl⟩
      · refine .inl ⟨?_, by rw [hs]⟩
        simp [hn, Ne.symm hc]
      · refine .inr ⟨a, l ++ [c], ?_, ?_, by rw [hl]⟩
        · rw [ha, List.append_assoc, List.cons_append]
        · simp [hn, Ne.symm hc]

/-- The line that a cut goes through: the last line before it and the first line after it. -/
theorem line?_append (s r : Text) :
    (s ++ r).line? (s.count '\n') = some (s.lastLine ++ r.firstLine) := by
  rw [line?]
  rcases lastLine_cases s with ⟨hn, hs⟩ | ⟨a, l, rfl, hn, hl⟩
  · rw [hs, ← firstLine_append r hn, ← head?_lines, List.count_eq_zero_of_not_mem hn,
      List.head?_eq_getElem?]
  · have hcount : (a ++ '\n' :: l).count '\n' = (lines a).length := by
      rw [List.count_append, List.count_cons_self, List.count_eq_zero_of_not_mem hn,
        length_lines]
    rw [hl, ← firstLine_append r hn, ← head?_lines, hcount, List.append_assoc, List.cons_append,
      lines_append_newline, List.getElem?_append_right (Nat.le_refl _), Nat.sub_self,
      List.head?_eq_getElem?]

theorem line?_count (t : Text) : t.line? (t.count '\n') = some t.lastLine := by
  have hline := line?_append t []
  rw [List.append_nil] at hline
  rw [hline]
  exact congrArg some (List.append_nil _)

theorem row_le_of_line? {t line : Text} {row : Nat} (h : t.line? row = some line) :
    row ≤ t.count '\n' := by
  have hrow := (List.getElem?_eq_some_iff.mp h).1
  rw [length_lines] at hrow
  exact Nat.le_of_lt_succ hrow

theorem isInfix_of_mem_lines {t line : Text} (h : line ∈ lines t) : line <:+: t := by
  induction t with
  | nil =>
    rw [List.mem_singleton.mp h]
  | cons c t ih =>
    obtain ⟨first, rest, hl⟩ := List.exists_cons_of_ne_nil (lines_ne_nil t)
    rw [lines] at h
    by_cases hc : c = '\n'
    · rw [if_pos hc] at h
      rcases List.mem_cons.mp h with rfl | h
      · exact List.nil_infix
      · exact (ih h).trans (List.suffix_cons c t).isInfix
    · rw [if_neg hc, hl] at h
      rcases List.mem_cons.mp h with rfl | h
      · have hfirst : first = firstLine t := by
          have hhead := head?_lines t
          rw [hl] at hhead
          exact Option.some.inj hhead
        rw [hfirst]
        exact (List.cons_prefix_cons.mpr ⟨rfl, List.takeWhile_prefix _⟩).isInfix
      · have hmem : line ∈ lines t := by
          rw [hl]
          exact List.mem_cons_of_mem _ h
        exact (ih hmem).trans (List.suffix_cons c t).isInfix

theorem isInfix_of_line? {t line : Text} {row : Nat} (h : t.line? row = some line) :
    line <:+: t :=
  isInfix_of_mem_lines (List.mem_of_getElem? h)

theorem size_le_of_isInfix (e : Encoding) {s t : Text} (h : s <:+: t) :
    size e s ≤ size e t := by
  obtain ⟨a, b, rfl⟩ := h
  rw [size_append, size_append]
  omega

theorem startsAfter_append (n : Nat) (a b : Text) :
    startsAfter n (a ++ b) = startsAfter n a ++ startsAfter (n + size .utf8 a) b := by
  induction a generalizing n with
  | nil => rfl
  | cons c a ih =>
    rw [List.cons_append, startsAfter, startsAfter, ih, size_cons, Encoding.size, Nat.add_assoc]
    split <;> rfl

theorem length_startsAfter (n : Nat) (t : Text) : (startsAfter n t).length = t.count '\n' := by
  induction t generalizing n with
  | nil => rfl
  | cons c t ih =>
    rw [startsAfter]
    by_cases hc : c = '\n'
    · rw [if_pos hc, List.length_cons, ih, hc, List.count_cons_self]
    · rw [if_neg hc, ih, List.count_cons_of_ne hc]

theorem lineStarts_append (s r : Text) :
    ∃ start, (s ++ r).lineStarts[s.count '\n']? = some start ∧
      start + size .utf8 s.lastLine = size .utf8 s := by
  rcases lastLine_cases s with ⟨hn, hs⟩ | ⟨a, l, rfl, hn, hl⟩
  · refine ⟨0, ?_, by rw [hs, Nat.zero_add]⟩
    rw [List.count_eq_zero_of_not_mem hn]
    rfl
  · have hcount : (a ++ '\n' :: l).count '\n' = (startsAfter 0 a).length + 1 := by
      rw [List.count_append, List.count_cons_self, List.count_eq_zero_of_not_mem hn,
        length_startsAfter]
    refine ⟨size .utf8 a + 1, ?_, ?_⟩
    · rw [lineStarts, hcount, List.append_assoc, List.cons_append, List.getElem?_cons_succ,
        startsAfter_append, List.getElem?_append_right (Nat.le_refl _), Nat.sub_self,
        Nat.zero_add]
      rfl
    · rw [hl, size_append, size_cons, Nat.add_assoc]
      rfl

theorem convert_append (e f : Encoding) (a b : Text) :
    convert e f (a ++ b) (size e a) = size f a := by
  have hsub : size e a - size e (a ++ b) = 0 := by
    rw [size_append]
    omega
  rw [convert, upTo_append, hsub, Nat.add_zero]

theorem bytePointAt_append (s r : Text) :
    (s ++ r).bytePointAt (size .utf8 s) = endLocation .utf8 s := by
  rw [bytePointAt, upTo_append]

theorem indexOfByte_append (s r : Text) :
    (s ++ r).indexOfByte (size .utf8 s) = size .utf16 s := by
  rw [indexOfByte, upTo_append]

theorem indexOfByte_of_isPrefix {s t : Text} (h : s <+: t) :
    t.indexOfByte (size .utf8 s) = size .utf16 s := by
  obtain ⟨r, rfl⟩ := h
  exact indexOfByte_append s r

theorem toPoint_append (s r : Text) : (s ++ r).toPoint (endLocation .utf8 s) = s.endPoint := by
  rw [endLocation_eq]
  simp only [toPoint, line?_append, convert_append]
  rfl

theorem size_lastLine_le (e : Encoding) (s : Text) : size e s.lastLine ≤ size e s := by
  obtain ⟨a, ha⟩ := List.rtakeWhile_suffix (p := (· ≠ '\n')) (l := s)
  have hs : size e (a ++ s.lastLine) = size e s := congrArg (size e) ha
  rw [← hs, size_append]
  exact Nat.le_add_left _ _

theorem length_le_size (e : Encoding) (t : Text) : t.length ≤ size e t := by
  induction t with
  | nil => exact Nat.le_refl 0
  | cons c t ih =>
    have hc := e.size_pos c
    rw [List.length_cons, size_cons]
    omega

theorem count_newline_le_size (e : Encoding) (t : Text) : t.count '\n' ≤ size e t :=
  List.count_le_length.trans (length_le_size e t)

theorem toBytePoint_append (s r : Text) (h : size .utf8 (s ++ r) < addressLimit) :
    (s ++ r).toBytePoint s.endPoint = .ok (endLocation .utf8 s) := by
  have hlast : size .utf8 s.lastLine < addressLimit := by
    have hle := size_lastLine_le .utf8 s
    rw [size_append] at h
    omega
  rw [endLocation_eq]
  simp only [toBytePoint, endPoint, line?_append, convert_append, if_pos hlast]

theorem byteOf_append (s r : Text) (h : size .utf8 (s ++ r) < addressLimit) :
    (s ++ r).byteOf s.endPoint = .ok (size .utf8 s) := by
  obtain ⟨start, hstart, hsize⟩ := lineStarts_append s r
  have hmin : min (size .utf8 s.lastLine) (size .utf8 (s.lastLine ++ r.firstLine)) =
      size .utf8 s.lastLine := by
    rw [size_append]
    omega
  have hq := toBytePoint_append s r h
  rw [endLocation_eq] at hq
  rw [byteOf, hq]
  simp only [endPoint, hstart, line?_append]
  change Except.ok (start + min (size .utf8 s.lastLine) _) = _
  rw [hmin, hsize]

theorem bytePointAt_le_size (t : Text) (n : Nat) :
    (t.bytePointAt n).row ≤ size .utf8 t ∧ (t.bytePointAt n).column ≤ size .utf8 t := by
  have hle := size_le_of_isInfix .utf8 (upTo_isPrefix .utf8 t n).isInfix
  rw [bytePointAt, endLocation_eq]
  exact ⟨(count_newline_le_size .utf8 _).trans hle, (size_lastLine_le .utf8 _).trans hle⟩

/-- Whether a byte offset is between two characters of the text, or at one of its ends. -/
def IsBoundary (t : Text) (n : Nat) : Prop := size .utf8 (t.upTo .utf8 n) = n

instance (t : Text) (n : Nat) : Decidable (IsBoundary t n) :=
  inferInstanceAs (Decidable (_ = _))

theorem IsBoundary.exists_append {t : Text} {n : Nat} (h : IsBoundary t n) :
    ∃ s r, t = s ++ r ∧ size .utf8 s = n := by
  obtain ⟨r, hr⟩ := upTo_isPrefix .utf8 t n
  exact ⟨_, r, hr.symm, h⟩

theorem isBoundary_of_isPrefix {s t : Text} (h : s <+: t) : IsBoundary t (size .utf8 s) := by
  obtain ⟨r, rfl⟩ := h
  rw [IsBoundary, upTo_append]

theorem eq_nil_of_size_eq_zero {e : Encoding} {t : Text} (h : size e t = 0) : t = [] := by
  cases t with
  | nil => rfl
  | cons c t =>
    have hc := e.size_pos c
    rw [size_cons] at h
    omega

theorem IsBoundary.exists_append_append {t : Text} {m n : Nat} (hm : IsBoundary t m)
    (hn : IsBoundary t n) (hle : m ≤ n) :
    ∃ a b c, t = a ++ b ++ c ∧ size .utf8 a = m ∧ size .utf8 (a ++ b) = n := by
  obtain ⟨a, r, ht, ha⟩ := hm.exists_append
  obtain ⟨s, c, ht', hs⟩ := hn.exists_append
  rcases List.prefix_or_prefix_of_prefix ⟨r, ht.symm⟩ ⟨c, ht'.symm⟩ with hp | hp
  · obtain ⟨b, rfl⟩ := hp
    exact ⟨a, b, c, ht', ha, hs⟩
  · obtain ⟨b, rfl⟩ := hp
    rw [size_append] at ha
    have hb : b = [] := eq_nil_of_size_eq_zero (e := .utf8) (by omega)
    subst hb
    refine ⟨s, [], c, ?_, by omega, ?_⟩
    · rw [ht', List.append_nil]
    · rw [List.append_nil, hs]

theorem append_inj_of_size {s r s' r' : Text} (h : s ++ r = s' ++ r')
    (hs : size .utf8 s = size .utf8 s') : s = s' ∧ r = r' := by
  have he : s = s' := by
    rw [← upTo_append .utf8 s r, h, hs, upTo_append]
  subst he
  exact ⟨rfl, List.append_cancel_left h⟩

theorem upTo_of_size_le {e : Encoding} {t : Text} {n : Nat} (h : size e t ≤ n) :
    t.upTo e n = t := by
  induction t generalizing n with
  | nil => rfl
  | cons c t ih =>
    have hc := e.size_pos c
    rw [size_cons] at h
    rw [upTo, if_neg (by omega), ih (by omega)]

theorem size_le_append (e : Encoding) (s r : Text) : size e s ≤ size e (s ++ r) := by
  rw [size_append]
  exact Nat.le_add_right _ _

theorem cut_append (s r : Text) : (s ++ r).cut (size .utf8 s) = .ok (s, r) := by
  rw [cut, cut?_append]

theorem cut_append_append (a b c : Text) :
    (a ++ b ++ c).cut (size .utf8 a) = .ok (a, b ++ c) := by
  rw [List.append_assoc, cut_append]

theorem slice_append_append (a b c : Text) :
    (a ++ b ++ c).slice (size .utf8 a) (size .utf8 (a ++ b)) = .ok b := by
  have hsub : size .utf8 (a ++ b) - size .utf8 a = size .utf8 b := by
    rw [size_append]
    omega
  rw [slice, slice?, if_pos (size_le_append .utf8 a b), hsub, List.append_assoc]
  simp only [cut?_append, Option.bind_some, Option.map_some]

theorem exists_append_of_slice {t u : Text} {m n : Nat} (h : t.slice m n = .ok u) :
    ∃ a c, t = a ++ u ++ c ∧ size .utf8 a = m ∧ size .utf8 (a ++ u) = n := by
  rw [slice, slice?] at h
  split at h
  · next hslice =>
    cases h
    split at hslice
    · next hle =>
      obtain ⟨⟨a, rest⟩, hcut, hrest⟩ := Option.bind_eq_some_iff.mp hslice
      obtain ⟨⟨b, c⟩, hcut', heq⟩ := Option.map_eq_some_iff.mp hrest
      obtain rfl : b = u := heq
      obtain ⟨rfl, rfl⟩ := eq_append_of_cut? hcut
      obtain ⟨rfl, hsize⟩ := eq_append_of_cut? hcut'
      refine ⟨a, c, (List.append_assoc _ _ _).symm, rfl, ?_⟩
      rw [size_append]
      omega
    · cases hslice
  · cases h

theorem endLocation_lt_append (e : Encoding) (s : Text) (c : Char) (r : Text) :
    endLocation e s < endLocation e (s ++ c :: r) := by
  rw [endLocation_append, List.foldl_cons]
  exact lt_of_lt_of_le (Location.lt_advance _ c) (Location.le_foldl_advance _ r)

theorem exists_append_of_size_lt {e : Encoding} {s s' t : Text} (hs : s <+: t) (hs' : s' <+: t)
    (h : size e s < size e s') : ∃ c r, s' = s ++ c :: r := by
  rcases List.prefix_or_prefix_of_prefix hs hs' with ⟨r, rfl⟩ | ⟨r, rfl⟩
  · cases r with
    | nil =>
      rw [List.append_nil] at h
      exact absurd h (Nat.lt_irrefl _)
    | cons c r => exact ⟨c, r, rfl⟩
  · have hle := size_le_append e s' r
    omega

theorem isPrefix_of_size_le {e : Encoding} {s s' t : Text} (hs : s <+: t) (hs' : s' <+: t)
    (h : size e s ≤ size e s') : s <+: s' := by
  rcases List.prefix_or_prefix_of_prefix hs hs' with hprefix | ⟨r, rfl⟩
  · exact hprefix
  · rw [size_append] at h
    have hr : r = [] := eq_nil_of_size_eq_zero (e := e) (by omega)
    rw [hr, List.append_nil]

theorem endLocation_lt_of_size_lt {e : Encoding} (f : Encoding) {s s' t : Text} (hs : s <+: t)
    (hs' : s' <+: t) (h : size e s < size e s') : endLocation f s < endLocation f s' := by
  obtain ⟨c, r, rfl⟩ := exists_append_of_size_lt hs hs' h
  exact endLocation_lt_append f s c r

theorem IsBoundary.bytePointAt_lt {t : Text} {m n : Nat} (hm : IsBoundary t m)
    (hn : IsBoundary t n) (h : m < n) : t.bytePointAt m < t.bytePointAt n := by
  refine endLocation_lt_of_size_lt .utf8 (upTo_isPrefix .utf8 t m) (upTo_isPrefix .utf8 t n)
    (e := .utf8) ?_
  rw [hm, hn]
  exact h

theorem IsBoundary.bytePointAt_lt_iff {t : Text} {m n : Nat} (hm : IsBoundary t m)
    (hn : IsBoundary t n) : t.bytePointAt m < t.bytePointAt n ↔ m < n := by
  constructor
  · intro h
    by_contra hle
    rcases Nat.lt_or_eq_of_le (Nat.le_of_not_lt hle) with hlt | rfl
    · exact lt_asymm h (hn.bytePointAt_lt hm hlt)
    · exact lt_irrefl _ h
  · exact hm.bytePointAt_lt hn

theorem IsBoundary.bytePointAt_le {t : Text} {m n : Nat} (hm : IsBoundary t m)
    (hn : IsBoundary t n) (h : m ≤ n) : t.bytePointAt m ≤ t.bytePointAt n := by
  rw [← not_lt, hn.bytePointAt_lt_iff hm]
  exact Nat.not_lt.mpr h

theorem IsBoundary.eq_of_bytePointAt_eq {t : Text} {m n : Nat} (hm : IsBoundary t m)
    (hn : IsBoundary t n) (h : t.bytePointAt m = t.bytePointAt n) : m = n := by
  apply Nat.le_antisymm
  · rw [← Nat.not_lt, ← hn.bytePointAt_lt_iff hm, h]
    exact lt_irrefl _
  · rw [← Nat.not_lt, ← hm.bytePointAt_lt_iff hn, h]
    exact lt_irrefl _

end StructEdit.Text
