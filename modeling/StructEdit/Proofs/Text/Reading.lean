import Mathlib.Data.List.DropRight
import Mathlib.Data.List.Infix
import Mathlib.Order.Defs.LinearOrder
import StructEdit.Location

namespace StructEdit

namespace Location

variable {e : Encoding}

instance : LinearOrder (Location e) where
  le_refl p := le_def.mpr (.inr ⟨rfl, Nat.le_refl _⟩)
  le_trans p q r hpq hqr := by
    rw [le_def] at *
    omega
  lt_iff_le_not_ge p q := by
    rw [lt_def, le_def, le_def]
    omega
  le_antisymm p q hpq hqp := by
    obtain ⟨row, column⟩ := p
    obtain ⟨row', column'⟩ := q
    simp only [le_def, mk.injEq] at *
    omega
  le_total p q := by
    rw [le_def, le_def]
    omega
  toDecidableLE := inferInstance
  toDecidableLT := inferInstance
  toDecidableEq := inferInstance

theorem lt_advance (p : Location e) (c : Char) : p < p.advance c := by
  have hc := e.size_pos c
  unfold advance
  split
  · exact lt_def.mpr (.inl (Nat.lt_succ_self _))
  · exact lt_def.mpr (.inr ⟨rfl, Nat.lt_add_of_pos_right hc⟩)

theorem le_foldl_advance (p : Location e) (t : Text) : p ≤ t.foldl advance p := by
  induction t generalizing p with
  | nil => exact le_refl p
  | cons c t ih => exact le_of_lt (lt_of_lt_of_le (lt_advance p c) (ih (p.advance c)))

end Location

namespace Text

variable {e : Encoding} {s t : Text}

theorem endLocation_append (e : Encoding) (s t : Text) :
    endLocation e (s ++ t) = t.foldl Location.advance (endLocation e s) :=
  List.foldl_append

def lastLine (s : Text) : Text := s.rtakeWhile (· ≠ '\n')

/-- The place just after a text, as an editor shows it. -/
def endPoint (s : Text) : Point := ⟨s.count '\n', size .utf16 s.lastLine⟩

theorem lastLine_concat_newline (s : Text) : lastLine (s ++ ['\n']) = [] :=
  List.rtakeWhile_concat_neg _ _ _ (by decide)

theorem lastLine_concat (s : Text) {c : Char} (h : c ≠ '\n') :
    lastLine (s ++ [c]) = s.lastLine ++ [c] :=
  List.rtakeWhile_concat_pos _ _ _ (by simpa using h)

theorem lastLine_append (s : Text) {t : Text} (h : '\n' ∉ t) :
    lastLine (s ++ t) = s.lastLine ++ t := by
  induction t using List.reverseRecOn with
  | nil => rw [List.append_nil, List.append_nil]
  | append_singleton t c ih =>
    rw [List.mem_append, List.mem_singleton, not_or] at h
    rw [← List.append_assoc, lastLine_concat _ (Ne.symm h.2), ih h.1, List.append_assoc]

theorem endLocation_eq (e : Encoding) (s : Text) :
    endLocation e s = ⟨s.count '\n', size e s.lastLine⟩ := by
  induction s using List.reverseRecOn with
  | nil => rfl
  | append_singleton s c ih =>
    rw [endLocation_append, ih, List.foldl_cons, List.foldl_nil, Location.advance]
    by_cases hc : c = '\n'
    · subst hc
      rw [lastLine_concat_newline, List.count_append]
      rfl
    · rw [if_neg hc, lastLine_concat s hc, List.count_append]
      simp [hc]

theorem endLocation_utf16 (s : Text) : endLocation .utf16 s = s.endPoint :=
  endLocation_eq .utf16 s

theorem endPoint_append (s : Text) (h : '\n' ∉ t) :
    endPoint (s ++ t) = ⟨s.endPoint.row, s.endPoint.column + size .utf16 t⟩ := by
  rw [endPoint, lastLine_append s h, size_append, List.count_append,
    List.count_eq_zero_of_not_mem h]
  rfl

theorem stepLeft_endPoint (s : Text) {c : Char} (hline : c ≠ '\n')
    (hunit : Encoding.utf16.size c = 1) :
    (endPoint (s ++ [c])).stepLeft = s.endPoint := by
  have hnewline : '\n' ∉ [c] := fun h => hline (List.mem_singleton.mp h).symm
  rw [endPoint_append s hnewline, size_cons, size_nil, hunit]
  rfl

theorem endLocation_le_of_isPrefix (h : s <+: t) : endLocation e s ≤ endLocation e t := by
  obtain ⟨r, rfl⟩ := h
  rw [endLocation_append]
  exact Location.le_foldl_advance _ r

theorem endPoint_le_of_isPrefix (h : s <+: t) : s.endPoint ≤ t.endPoint := by
  rw [← endLocation_utf16, ← endLocation_utf16]
  exact endLocation_le_of_isPrefix h

theorem reach_isPrefix (target p : Location e) (t : Text) : reach target p t <+: t := by
  induction t generalizing p with
  | nil => exact List.nil_prefix
  | cons c t ih =>
    rw [reach]
    split
    · exact List.nil_prefix
    · exact List.cons_prefix_cons.mpr ⟨rfl, ih _⟩

theorem reach_append (s r : Text) {target p : Location e}
    (h : s.foldl Location.advance p ≤ target) :
    reach target p (s ++ r) = s ++ reach target (s.foldl Location.advance p) r := by
  induction s generalizing p with
  | nil => rfl
  | cons c s ih =>
    have hp : p < target :=
      lt_of_lt_of_le (lt_of_lt_of_le (p.lt_advance c) (Location.le_foldl_advance _ s)) h
    rw [List.cons_append, reach, if_neg (not_le_of_gt hp), ih h]
    rfl

theorem reach_append_of_le (s r : Text) {target p : Location e}
    (h : target ≤ s.foldl Location.advance p) : reach target p (s ++ r) = reach target p s := by
  induction s generalizing p with
  | nil =>
    cases r with
    | nil => rfl
    | cons c r => exact if_pos h
  | cons c s ih => rw [List.cons_append, reach, reach, ih h]

/-- The shortest beginning of a text that ends at a point or after it, or all of it. -/
def firstReaching (t : Text) (p : Point) : Text :=
  (t.inits.find? fun s => p ≤ endPoint s).getD t

theorem find?_inits_eq_reach (target p : Location e) (t : Text) :
    (t.inits.find? fun s => target ≤ s.foldl Location.advance p).getD t = reach target p t := by
  induction t generalizing p with
  | nil =>
    by_cases h : target ≤ p <;> simp [reach, h]
  | cons c t ih =>
    rw [List.inits_cons, List.find?_cons, reach, List.foldl_nil]
    by_cases h : target ≤ p
    · simp [h]
    · rw [← ih (p.advance c), List.find?_map, decide_eq_false h, if_neg h]
      exact Option.getD_map (c :: ·) t _

theorem reach_origin_eq (t : Text) (p : Point) : reach p .origin t = t.firstReaching p := by
  have hp : ∀ s : Text, s.foldl Location.advance .origin = s.endPoint := endLocation_utf16
  rw [firstReaching, ← find?_inits_eq_reach]
  simp only [hp]

theorem firstReaching_isPrefix (t : Text) (p : Point) : t.firstReaching p <+: t := by
  rw [← reach_origin_eq]
  exact reach_isPrefix p .origin t

theorem le_endPoint_firstReaching (t : Text) (p : Point) :
    p ≤ (t.firstReaching p).endPoint ∨ t.firstReaching p = t := by
  rw [firstReaching]
  cases h : t.inits.find? fun s => p ≤ endPoint s with
  | none => exact .inr rfl
  | some s =>
    have hs := List.find?_some h
    exact .inl (of_decide_eq_true hs)

theorem append_reach_eq_firstReaching (s r : Text) {p : Point} (h : s.endPoint ≤ p) :
    s ++ reach p s.endPoint r = (s ++ r).firstReaching p := by
  rw [← endLocation_utf16] at h ⊢
  rw [← reach_origin_eq]
  exact (reach_append s r h).symm

theorem firstReaching_endPoint (s r : Text) : (s ++ r).firstReaching s.endPoint = s := by
  rw [← append_reach_eq_firstReaching s r (le_refl _)]
  cases r with
  | nil => rw [reach, List.append_nil]
  | cons c r => rw [reach, if_pos (le_refl _), List.append_nil]

theorem firstReaching_of_endPoint_le {p : Point} (h : t.endPoint ≤ p) :
    t.firstReaching p = t := by
  have hall := append_reach_eq_firstReaching t [] h
  rw [reach, List.append_nil] at hall
  exact hall.symm

theorem firstReaching_append (s r : Text) {p : Point} (h : p ≤ s.endPoint) :
    (s ++ r).firstReaching p = s.firstReaching p := by
  rw [← endLocation_utf16] at h
  rw [← reach_origin_eq, ← reach_origin_eq]
  exact reach_append_of_le s r h

theorem firstReaching_isPrefix_of_le {p q : Point} (h : p ≤ q) :
    t.firstReaching p <+: t.firstReaching q := by
  rcases t.le_endPoint_firstReaching q with hreached | hall
  · obtain ⟨r, hr⟩ := t.firstReaching_isPrefix q
    have happend := firstReaching_append (t.firstReaching q) r (h.trans hreached)
    rw [hr] at happend
    rw [happend]
    exact firstReaching_isPrefix _ p
  · rw [hall]
    exact t.firstReaching_isPrefix p

end Text

end StructEdit
