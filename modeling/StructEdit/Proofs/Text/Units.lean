import StructEdit.Proofs.Text.Translation

namespace StructEdit.Text

variable {s t line : Text} {n : Nat}

theorem byteOfUnits_le_iff (h : s <+: t) :
    t.byteOfUnits n ≤ s.size .utf8 ↔ n ≤ s.size .utf16 ∨ s.size .utf8 = t.size .utf8 := by
  obtain ⟨r, rfl⟩ := h
  have hend : r = [] ↔ s.size .utf8 = size .utf8 (s ++ r) := by
    rw [size_append]
    constructor
    · rintro rfl
      rfl
    · intro heq
      exact eq_nil_of_size_eq_zero (e := .utf8) (by omega)
  rw [byteOfUnits, size_upTo_le_iff, hend]

theorem byteOfUnits_of_isPrefix (h : s <+: t) :
    t.byteOfUnits (s.size .utf16) = s.size .utf8 := by
  obtain ⟨r, rfl⟩ := h
  rw [byteOfUnits, upTo_append]

theorem toBytePoint_of_column_le {row column : Nat} (ht : t.size .utf8 < addressLimit)
    (hline : t.line? row = some line) (hcolumn : column ≤ line.size .utf16) :
    t.toBytePoint ⟨row, column⟩ = .ok ⟨row, line.byteOfUnits column⟩ := by
  have hbyte : line.convert .utf16 .utf8 column = line.byteOfUnits column :=
    convert_of_le hcolumn
  have hlimit : line.byteOfUnits column < addressLimit := by
    calc line.byteOfUnits column
        ≤ line.size .utf8 := size_le_of_isInfix .utf8 (upTo_isPrefix .utf16 line column).isInfix
      _ ≤ t.size .utf8 := size_le_of_isInfix .utf8 (isInfix_of_line? hline)
      _ < addressLimit := ht
  rw [← hbyte] at hlimit ⊢
  exact toBytePoint_of_line hline hlimit

/-- The byte offset of a number of units is the first that has as many units before it. -/
theorem byteOfUnits_is_adjoint (t : Text) (ht : t.size .utf8 < addressLimit) :
    (∀ n, ∃ s : Text, s <+: t ∧ t.byteOfUnits n = s.size .utf8) ∧
    (∀ (n : Nat) (s : Text), s <+: t →
      (t.byteOfUnits n ≤ s.size .utf8 ↔ n ≤ s.size .utf16 ∨ s.size .utf8 = t.size .utf8)) ∧
    (∀ s : Text, s <+: t → t.indexOfByte (s.size .utf8) = s.size .utf16 ∧
      t.byteOfUnits (t.indexOfByte (s.size .utf8)) = s.size .utf8) ∧
    ∀ (row column : Nat) (line : Text), t.line? row = some line → column ≤ line.size .utf16 →
      t.toBytePoint ⟨row, column⟩ = .ok ⟨row, line.byteOfUnits column⟩ := by
  refine ⟨?_, fun n s => byteOfUnits_le_iff, ?_, fun _ _ _ => toBytePoint_of_column_le ht⟩
  · intro n
    exact ⟨t.upTo .utf16 n, upTo_isPrefix .utf16 t n, rfl⟩
  · intro s hs
    have hindex := indexOfByte_of_isPrefix hs
    rw [hindex]
    exact ⟨rfl, byteOfUnits_of_isPrefix hs⟩

theorem byteOfUnits_in_surrogate_pair :
    let t : Text := ['é', '\n', '😀', 'x']
    t.size .utf8 < addressLimit ∧ t.byteOfUnits 3 = 7 ∧
      (t.byteOfUnits 3 ≤ 3 ↔ 3 ≤ 2 ∨ 3 = 8) ∧ (t.byteOfUnits 3 ≤ 7 ↔ 3 ≤ 4 ∨ 7 = 8) ∧
      (t.byteOfUnits 9 ≤ 8 ↔ 9 ≤ 5 ∨ 8 = 8) ∧ t.byteOfUnits (t.indexOfByte 7) = 7 ∧
      t.line? 1 = some ['😀', 'x'] ∧ t.toBytePoint ⟨1, 1⟩ = .ok ⟨1, byteOfUnits ['😀', 'x'] 1⟩ ∧
      byteOfUnits ['😀', 'x'] 1 = 4 := by
  intro t
  have ht : t.size .utf8 < addressLimit := by decide
  have hfirst : ['é', '\n'] <+: t := ⟨['😀', 'x'], rfl⟩
  have hpair : ['é', '\n', '😀'] <+: t := ⟨['x'], rfl⟩
  obtain ⟨_, hle, hback, hcolumn⟩ := byteOfUnits_is_adjoint t ht
  exact ⟨ht, rfl, hle 3 _ hfirst, hle 3 _ hpair, hle 9 t (List.prefix_refl t),
    (hback _ hpair).2, rfl, hcolumn 1 1 _ rfl (by decide), rfl⟩

end StructEdit.Text
