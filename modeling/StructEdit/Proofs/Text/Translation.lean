import StructEdit.Proofs.Text.Boundary

namespace StructEdit

namespace Text

variable {e f : Encoding} {t : Text} {n stop : Nat}

/-- The offset `n` is strictly inside a character of the text, and that character ends at
`stop`. -/
def Inside (e : Encoding) (t : Text) (n stop : Nat) : Prop :=
  ∃ a c b, t = a ++ c :: b ∧ size e a < n ∧ n < stop ∧ stop = size e (a ++ [c])

theorem upTo_append_of_le (b : Text) {a : Text} (h : size e a ≤ n) :
    upTo e (a ++ b) n = a ++ upTo e b (n - size e a) := by
  induction a generalizing n with
  | nil => rfl
  | cons c a ih =>
    have hc := e.size_pos c
    rw [size_cons] at h
    rw [List.cons_append, upTo, if_neg (by omega), ih (by omega), size_cons, Nat.sub_sub]
    rfl

theorem Inside.exists_upTo (h : t.Inside e n stop) :
    ∃ s r, t = s ++ r ∧ size e s = stop ∧ t.upTo e n = s := by
  obtain ⟨a, c, b, rfl, ha, hn, rfl⟩ := h
  have hc : n - size e a - e.size c = 0 := by
    rw [size_append, size_cons, size_nil] at hn
    omega
  refine ⟨a ++ [c], b, by rw [List.append_assoc, List.singleton_append], rfl, ?_⟩
  rw [upTo_append_of_le _ (Nat.le_of_lt ha), upTo, if_neg (by omega), hc, upTo_zero]

theorem Inside.size_upTo (h : t.Inside e n stop) : size e (t.upTo e n) = stop := by
  obtain ⟨s, _, _, hs, hupTo⟩ := h.exists_upTo
  rw [hupTo, hs]

theorem Inside.upTo_stop (h : t.Inside e n stop) : t.upTo e stop = t.upTo e n := by
  obtain ⟨s, r, rfl, rfl, hupTo⟩ := h.exists_upTo
  rw [hupTo, upTo_append]

theorem Inside.cons {c : Char} (h : t.Inside e n stop) :
    Inside e (c :: t) (e.size c + n) (e.size c + stop) := by
  obtain ⟨a, d, b, rfl, ha, hn, rfl⟩ := h
  refine ⟨c :: a, d, b, rfl, ?_, ?_, ?_⟩
  · rw [size_cons]
    omega
  · omega
  · rw [List.cons_append, size_cons]

theorem size_upTo_eq_or_inside (h : n ≤ size e t) :
    size e (t.upTo e n) = n ∨ t.Inside e n (size e (t.upTo e n)) := by
  induction t generalizing n with
  | nil => exact .inl (Nat.le_zero.mp h).symm
  | cons c t ih =>
    rw [size_cons] at h
    by_cases hzero : n = 0
    · rw [hzero, upTo_zero]
      exact .inl rfl
    rw [upTo, if_neg hzero, size_cons]
    by_cases hlt : n < e.size c
    · right
      rw [Nat.sub_eq_zero_of_le (Nat.le_of_lt hlt), upTo_zero]
      exact ⟨[], c, t, rfl, Nat.pos_of_ne_zero hzero, hlt, rfl⟩
    · have hn : e.size c + (n - e.size c) = n := by omega
      rcases ih (n := n - e.size c) (by omega) with heq | hinside
      · left
        rw [heq, hn]
      · right
        have hcons := hinside.cons (c := c)
        rw [hn] at hcons
        exact hcons

theorem Inside.lt_stop (h : t.Inside e n stop) : n < stop := by
  obtain ⟨_, _, _, _, _, hn, _⟩ := h
  exact hn

theorem Inside.stop_le_size (h : t.Inside e n stop) : stop ≤ size e t := by
  obtain ⟨a, c, b, rfl, _, _, rfl⟩ := h
  have hle := size_le_append e (a ++ [c]) b
  rw [List.append_assoc, List.singleton_append] at hle
  exact hle

theorem convert_of_le (h : n ≤ size e t) : convert e f t n = size f (t.upTo e n) := by
  rw [convert, Nat.sub_eq_zero_of_le h, Nat.add_zero]

theorem convert_of_size_le (h : size e t ≤ n) :
    convert e f t n = size f t + (n - size e t) := by
  rw [convert, upTo_of_size_le h]

theorem convert_convert (h : n ≤ size e t) :
    convert f e t (convert e f t n) = size e (t.upTo e n) := by
  obtain ⟨r, hr⟩ := upTo_isPrefix e t n
  have happend := convert_append f e (t.upTo e n) r
  rw [hr] at happend
  rw [convert_of_le h, happend]

theorem convert_convert_of_inside (h : t.Inside e n stop) :
    convert f e t (convert e f t n) = stop := by
  have hle := Nat.le_trans (Nat.le_of_lt h.lt_stop) h.stop_le_size
  rw [convert_convert hle, h.size_upTo]

theorem convert_convert_of_not_inside (h : ¬∃ stop, t.Inside e n stop) :
    convert f e t (convert e f t n) = n := by
  rcases Nat.le_total n (size e t) with hle | hle
  · rw [convert_convert hle]
    rcases size_upTo_eq_or_inside hle with heq | hinside
    · exact heq
    · exact absurd ⟨_, hinside⟩ h
  · rw [convert_of_size_le hle, convert_of_size_le (Nat.le_add_right _ _)]
    omega

theorem upTo_append_of_size_le (b : Text) {a : Text} (h : n ≤ size e a) :
    upTo e (a ++ b) n = upTo e a n := by
  induction a generalizing n with
  | nil =>
    rw [Nat.le_zero.mp h, upTo_zero, upTo_zero]
  | cons c a ih =>
    rw [size_cons] at h
    rw [List.cons_append, upTo, upTo, ih (Nat.sub_le_iff_le_add'.mpr h)]

theorem size_upTo_le_iff (s r : Text) (n : Nat) :
    size f ((s ++ r).upTo e n) ≤ size f s ↔ n ≤ size e s ∨ r = [] := by
  constructor
  · intro h
    by_contra hnot
    obtain ⟨hlt, hr⟩ := not_or.mp hnot
    obtain ⟨c, r, rfl⟩ := List.exists_cons_of_ne_nil hr
    have hpos := f.size_pos c
    have hpast : n - size e s ≠ 0 := by omega
    rw [upTo_append_of_le _ (by omega), upTo, if_neg hpast, size_append, size_cons] at h
    omega
  · intro h
    have hscan : (s ++ r).upTo e n = s.upTo e n := by
      rcases h with hle | rfl
      · exact upTo_append_of_size_le r hle
      · rw [List.append_nil]
    rw [hscan]
    exact size_le_of_isInfix f (upTo_isPrefix e s n).isInfix

theorem convert_le_size_iff (a b : Text) :
    convert e f (a ++ b) n ≤ size f a ↔ n ≤ size e a := by
  constructor
  · intro h
    rw [convert] at h
    have hscan : size f ((a ++ b).upTo e n) ≤ size f a := by omega
    rcases (size_upTo_le_iff a b n).mp hscan with hle | rfl
    · exact hle
    · by_contra hlt
      rw [List.append_nil, upTo_of_size_le (by omega)] at h
      omega
  · intro h
    rw [convert_of_le (h.trans (size_le_append e a b))]
    exact (size_upTo_le_iff a b n).mpr (.inl h)

theorem Inside.stop_eq_succ (h : t.Inside .utf16 n stop) : stop = n + 1 := by
  obtain ⟨a, c, b, rfl, ha, hn, rfl⟩ := h
  have hc : Encoding.utf16.size c ≤ 2 := by
    rw [Encoding.size]
    split <;> omega
  rw [size_append, size_cons, size_nil] at hn ⊢
  omega

/-- The place is strictly inside a character of its line that ends at the column `stop`. -/
def InsideAt (t : Text) (p : Location e) (stop : Nat) : Prop :=
  ∃ line, t.line? p.row = some line ∧ line.Inside e p.column stop

theorem toBytePoint_eq_ok {p : Point} {q : BytePoint} (h : t.toBytePoint p = .ok q) :
    t.line? p.row = none ∧ q = ⟨p.row, p.column⟩ ∨
      ∃ line, t.line? p.row = some line ∧ q = ⟨p.row, line.convert .utf16 .utf8 p.column⟩ := by
  rw [toBytePoint] at h
  split at h
  · next hline =>
    cases h
    exact .inl ⟨hline, rfl⟩
  · next line hline =>
    dsimp only at h
    split at h
    · cases h
      exact .inr ⟨line, hline, rfl⟩
    · cases h

theorem toPoint_of_line {row column : Nat} {line : Text} (h : t.line? row = some line) :
    t.toPoint ⟨row, column⟩ = ⟨row, line.convert .utf8 .utf16 column⟩ := by
  simp only [toPoint, h]

theorem toPoint_of_no_line {row column : Nat} (h : t.line? row = none) :
    t.toPoint ⟨row, column⟩ = ⟨row, column⟩ := by
  simp only [toPoint, h]

theorem toPoint_toBytePoint_of_inside {p : Point} {q : BytePoint} (h : t.toBytePoint p = .ok q)
    (hp : t.InsideAt p stop) : t.toPoint q = ⟨p.row, p.column + 1⟩ := by
  obtain ⟨line, hline, hinside⟩ := hp
  rcases toBytePoint_eq_ok h with ⟨hnone, _⟩ | ⟨line', hline', rfl⟩
  · rw [hline] at hnone
    cases hnone
  · rw [hline] at hline'
    cases hline'
    rw [toPoint_of_line hline, convert_convert_of_inside hinside, hinside.stop_eq_succ]

theorem toPoint_toBytePoint {p : Point} {q : BytePoint} (h : t.toBytePoint p = .ok q)
    (hp : ¬∃ stop, t.InsideAt p stop) : t.toPoint q = p := by
  rcases toBytePoint_eq_ok h with ⟨hnone, rfl⟩ | ⟨line, hline, rfl⟩
  · exact toPoint_of_no_line hnone
  · have hinside : ¬∃ stop, line.Inside .utf16 p.column stop := by
      rintro ⟨stop, hstop⟩
      exact hp ⟨stop, line, hline, hstop⟩
    rw [toPoint_of_line hline, convert_convert_of_not_inside hinside]

theorem toBytePoint_of_no_line {row column : Nat} (h : t.line? row = none) :
    t.toBytePoint ⟨row, column⟩ = .ok ⟨row, column⟩ := by
  simp only [toBytePoint, h]

theorem toBytePoint_of_line {row column : Nat} {line : Text} (h : t.line? row = some line)
    (hlimit : line.convert .utf16 .utf8 column < addressLimit) :
    t.toBytePoint ⟨row, column⟩ = .ok ⟨row, line.convert .utf16 .utf8 column⟩ := by
  simp only [toBytePoint, h, if_pos hlimit]

theorem toBytePoint_toPoint_of_inside {q : BytePoint} (ht : t.size .utf8 < addressLimit)
    (hq : t.InsideAt q stop) : t.toBytePoint (t.toPoint q) = .ok ⟨q.row, stop⟩ := by
  obtain ⟨line, hline, hinside⟩ := hq
  have hback := convert_convert_of_inside (f := .utf16) hinside
  have hstop : stop < addressLimit := by
    have hle := hinside.stop_le_size.trans (size_le_of_isInfix .utf8 (isInfix_of_line? hline))
    exact lt_of_le_of_lt hle ht
  rw [toPoint_of_line hline, toBytePoint_of_line hline (by rw [hback]; exact hstop), hback]

theorem toBytePoint_toPoint {q : BytePoint} (hcolumn : q.column < addressLimit)
    (hq : ¬∃ stop, t.InsideAt q stop) : t.toBytePoint (t.toPoint q) = .ok q := by
  cases hline : t.line? q.row with
  | none => rw [toPoint_of_no_line hline, toBytePoint_of_no_line hline]
  | some line =>
    have hinside : ¬∃ stop, line.Inside .utf8 q.column stop := by
      rintro ⟨stop, hstop⟩
      exact hq ⟨stop, line, hline, hstop⟩
    have hback := convert_convert_of_not_inside (f := .utf16) hinside
    rw [toPoint_of_line hline, toBytePoint_of_line hline (by rw [hback]; exact hcolumn), hback]

theorem toPoint_of_isPrefix {s : Text} (h : s <+: t) :
    t.toPoint ⟨s.count '\n', s.lastLine.size .utf8⟩ = s.endPoint := by
  obtain ⟨r, rfl⟩ := h
  rw [← endLocation_eq, toPoint_append]

/-- The byte point of a point is the first one that is not before it. -/
theorem toBytePoint_le_iff {p : Point} {q : BytePoint} {s : Text} (hq : t.toBytePoint p = .ok q)
    (hs : s <+: t) : q ≤ endLocation .utf8 s ↔ p ≤ s.endPoint := by
  obtain ⟨r, rfl⟩ := hs
  rw [endLocation_eq, endPoint, Location.le_def, Location.le_def]
  by_cases hrow : p.row = s.count '\n'
  · have hline := line?_append s r
    rw [← hrow] at hline
    rcases toBytePoint_eq_ok hq with ⟨hnone, _⟩ | ⟨line, hline', rfl⟩
    · rw [hline] at hnone
      cases hnone
    · rw [hline] at hline'
      cases hline'
      simp only [hrow, convert_le_size_iff]
  · have hqrow : q.row = p.row := by
      rcases toBytePoint_eq_ok hq with ⟨_, rfl⟩ | ⟨_, _, rfl⟩ <;> rfl
    simp only [hqrow, hrow, false_and]

theorem toBytePoint_of_inside {p : Point} {q : BytePoint} (hq : t.toBytePoint p = .ok q)
    (hp : t.InsideAt p stop) : t.toBytePoint ⟨p.row, stop⟩ = .ok q := by
  obtain ⟨line, hline, hinside⟩ := hp
  have hle := hinside.stop_le_size
  have hconvert : line.convert .utf16 .utf8 stop = line.convert .utf16 .utf8 p.column := by
    rw [convert_of_le hle, convert_of_le (hinside.lt_stop.le.trans hle), hinside.upTo_stop]
  rw [← hq]
  simp only [toBytePoint, hline, hconvert]

theorem toBytePoint_toPoint_of_ok {p : Point} {q : BytePoint} (hq : t.toBytePoint p = .ok q) :
    t.toBytePoint (t.toPoint q) = .ok q := by
  by_cases hp : ∃ stop, t.InsideAt p stop
  · obtain ⟨stop, hstop⟩ := hp
    obtain ⟨line, hline, hinside⟩ := hstop
    rw [toPoint_toBytePoint_of_inside hq ⟨line, hline, hinside⟩, ← hinside.stop_eq_succ]
    exact toBytePoint_of_inside hq ⟨line, hline, hinside⟩
  · rw [toPoint_toBytePoint hq hp]
    exact hq

theorem toBytePoint_lt_iff {p : Point} {q : BytePoint} {s : Text}
    (ht : t.size .utf8 < addressLimit)
    (hq : t.toBytePoint p = .ok q) (hs : s <+: t) :
    q < endLocation .utf8 s ↔ t.toPoint q < s.endPoint := by
  have hback := toBytePoint_toPoint_of_ok hq
  have hiff : q = endLocation .utf8 s ↔ t.toPoint q = s.endPoint := by
    obtain ⟨r, rfl⟩ := hs
    constructor
    · intro h
      rw [h, toPoint_append]
    · intro h
      rw [h, toBytePoint_append s r ht] at hback
      cases hback
      rfl
  rw [lt_iff_le_and_ne, lt_iff_le_and_ne, toBytePoint_le_iff hback hs, Ne, Ne, hiff]

/-- Places that are not inside a character are turned into each other and back. -/
theorem translations_invert_each_other (t : Text) (ht : t.size .utf8 < addressLimit) :
    (∀ (p : Point) (q : BytePoint), t.toBytePoint p = .ok q →
      (∀ stop, t.InsideAt p stop → t.toPoint q = ⟨p.row, p.column + 1⟩) ∧
      ((¬∃ stop, t.InsideAt p stop) → t.toPoint q = p)) ∧
    (∀ q : BytePoint, q.column < addressLimit →
      (∀ stop, t.InsideAt q stop → t.toBytePoint (t.toPoint q) = .ok ⟨q.row, stop⟩) ∧
      ((¬∃ stop, t.InsideAt q stop) → t.toBytePoint (t.toPoint q) = .ok q)) ∧
    (∀ s : Text, s <+: t →
      t.byteOf (t.toPoint ⟨s.count '\n', s.lastLine.size .utf8⟩) = .ok (s.size .utf8)) ∧
    ∀ s s' : Text, s <+: t → s' <+: t → s.size .utf8 < s'.size .utf8 →
      t.toPoint ⟨s.count '\n', s.lastLine.size .utf8⟩ <
        t.toPoint ⟨s'.count '\n', s'.lastLine.size .utf8⟩ := by
  refine ⟨?_, ?_, ?_, ?_⟩
  · intro p q h
    exact ⟨fun stop => toPoint_toBytePoint_of_inside h, toPoint_toBytePoint h⟩
  · intro q hcolumn
    exact ⟨fun stop => toBytePoint_toPoint_of_inside ht, toBytePoint_toPoint hcolumn⟩
  · intro s hs
    rw [toPoint_of_isPrefix hs]
    obtain ⟨r, rfl⟩ := hs
    exact byteOf_append s r ht
  · intro s s' hs hs' hlt
    rw [toPoint_of_isPrefix hs, toPoint_of_isPrefix hs', ← endLocation_utf16,
      ← endLocation_utf16]
    exact endLocation_lt_of_size_lt .utf16 hs hs' hlt

theorem translations_round_up :
    let t : Text := ['é', '😀', '\n', 'x', 'é']
    t.size .utf8 < addressLimit ∧
      t.toBytePoint ⟨0, 2⟩ = .ok ⟨0, 6⟩ ∧ t.InsideAt (e := .utf16) ⟨0, 2⟩ 3 ∧
      t.toPoint ⟨0, 6⟩ = ⟨0, 3⟩ ∧
      t.InsideAt (e := .utf8) ⟨1, 2⟩ 3 ∧ t.toBytePoint (t.toPoint ⟨1, 2⟩) = .ok ⟨1, 3⟩ ∧
      t.byteOf (t.toPoint ⟨1, 1⟩) = .ok 8 ∧ t.toPoint ⟨0, 2⟩ < t.toPoint ⟨1, 1⟩ := by
  intro t
  have ht : t.size .utf8 < addressLimit := by decide
  have hpair : t.InsideAt (e := .utf16) ⟨0, 2⟩ 3 :=
    ⟨['é', '😀'], rfl, ['é'], '😀', [], rfl, by decide, by decide, rfl⟩
  have hbytes : t.InsideAt (e := .utf8) ⟨1, 2⟩ 3 :=
    ⟨['x', 'é'], rfl, ['x'], 'é', [], rfl, by decide, by decide, rfl⟩
  obtain ⟨hpoint, hbyte, hcut, horder⟩ := translations_invert_each_other t ht
  have hline : ['é', '😀', '\n', 'x'] <+: t := ⟨['é'], rfl⟩
  have hfirst : ['é'] <+: t := ⟨['😀', '\n', 'x', 'é'], rfl⟩
  exact ⟨ht, rfl, hpair, (hpoint ⟨0, 2⟩ ⟨0, 6⟩ rfl).1 3 hpair, hbytes,
    (hbyte ⟨1, 2⟩ (by decide)).1 3 hbytes, hcut _ hline, horder _ _ hfirst hline (by decide)⟩

end Text

end StructEdit
