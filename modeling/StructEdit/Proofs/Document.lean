import StructEdit.Document
import StructEdit.Proofs.Tree.WellFormed

namespace StructEdit

theorem ok_bind {ε α β : Type} (a : α) (next : α → Except ε β) :
    Except.ok a >>= next = next a := rfl

theorem exists_of_bind_ok {ε α β : Type} {first : Except ε α} {next : α → Except ε β} {b : β}
    (h : first >>= next = .ok b) : ∃ a, first = .ok a ∧ next a = .ok b := by
  rcases first with e | a
  · exact nomatch h
  · exact ⟨a, rfl, h⟩

theorem Tree.Fits.exists_append {text : Text} {t : Tree} (h : t.Fits text) :
    ∃ before inner after, text = before ++ inner ++ after ∧
      before.size .utf8 = t.start ∧ Text.size .utf8 (before ++ inner) = t.stop :=
  h.start_boundary.exists_append_append h.stop_boundary h.start_le_stop

namespace Document

variable {doc : Document} {t : Tree} {p : Point} {q : BytePoint}

theorem startPoint_eq {s r : Text} (h : doc.text = s ++ r) (hs : s.size .utf8 = t.start) :
    doc.startPoint t = s.endPoint := by
  rw [startPoint, h, ← hs, Text.bytePointAt_append, Text.toPoint_append]

theorem endPoint_eq {s r : Text} (h : doc.text = s ++ r) (hs : s.size .utf8 = t.stop) :
    doc.endPoint t = s.endPoint := by
  rw [endPoint, h, ← hs, Text.bytePointAt_append, Text.toPoint_append]

theorem startIndex_eq {s r : Text} (h : doc.text = s ++ r) (hs : s.size .utf8 = t.start) :
    doc.startIndex t = s.size .utf16 := by
  rw [startIndex, h, ← hs, Text.indexOfByte_append]

theorem endIndex_eq {s r : Text} (h : doc.text = s ++ r) (hs : s.size .utf8 = t.stop) :
    doc.endIndex t = s.size .utf16 := by
  rw [endIndex, h, ← hs, Text.indexOfByte_append]

theorem cut_start_eq {s r : Text} (h : doc.text = s ++ r) (hs : s.size .utf8 = t.start) :
    doc.text.cut t.start = .ok (s, r) := by
  rw [h, ← hs, Text.cut_append]

theorem textOf_eq {a b c : Text} (h : doc.text = a ++ b ++ c) (ha : a.size .utf8 = t.start)
    (hb : Text.size .utf8 (a ++ b) = t.stop) : doc.textOf t = .ok b := by
  rw [textOf, h, ← ha, ← hb, Text.slice_append_append]

/-- The tree fits the text, and the text is shorter than the address space. -/
structure WellFormed (doc : Document) : Prop where
  tree : doc.tree.WellFormed doc.text
  addressable : doc.text.size .utf8 < addressLimit

instance (doc : Document) : Decidable doc.WellFormed :=
  decidable_of_iff (doc.tree.WellFormed doc.text ∧ doc.text.size .utf8 < addressLimit)
    ⟨fun ⟨h₁, h₂⟩ => ⟨h₁, h₂⟩, fun ⟨h₁, h₂⟩ => ⟨h₁, h₂⟩⟩

theorem toBytePoint_startPoint (ht : t.Fits doc.text)
    (hsize : doc.text.size .utf8 < addressLimit) :
    doc.text.toBytePoint (doc.startPoint t) = .ok (doc.text.bytePointAt t.start) := by
  obtain ⟨s, r, htext, hs⟩ := ht.start_boundary.exists_append
  rw [startPoint_eq htext hs]
  rw [htext] at hsize ⊢
  rw [Text.toBytePoint_append s r hsize, ← hs, Text.bytePointAt_append]

theorem nodeAt_eq (hq : doc.text.toBytePoint p = .ok q) :
    doc.nodeAt p = .ok (doc.tree.deepestAt doc.text q) := by
  rw [nodeAt, hq]
  rfl

theorem nodeAt_within {c : Cursor} (h : doc.nodeAt p = .ok c) : Cursor.Within doc.tree c := by
  obtain ⟨q, _, hc⟩ := exists_of_bind_ok h
  cases hc
  exact doc.tree.deepestAt_within doc.text q

theorem enclosingAt_within {kinds : List String} {c : Cursor}
    (h : doc.enclosingAt kinds p = .ok (some c)) : Cursor.Within doc.tree c := by
  obtain ⟨c₀, hc₀, hc⟩ := exists_of_bind_ok h
  exact (nodeAt_within hc₀).enclosing? (Except.ok.inj hc)

end Document

end StructEdit
