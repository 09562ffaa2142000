import StructEdit.Proofs.Document
import StructEdit.Proofs.Text.Clamp

namespace StructEdit.Document

variable {doc : Document} {p : Point} {q : BytePoint}

theorem pointIndex_eq (hw : doc.tree.WellFormed doc.text)
    (hq : doc.text.toBytePoint p = .ok q) :
    doc.pointIndex p = .ok ((doc.text.firstReaching p).size .utf16) := by
  have hfits := (doc.tree.deepestAt_within doc.text q).fits hw
  obtain ⟨s, r, htext, hs⟩ := hfits.start_boundary.exists_append
  rw [pointIndex, nodeAt_eq hq]
  change (if doc.startPoint (doc.tree.deepestAt doc.text q).node ≤ p then _ else _) = _
  rw [startPoint_eq htext hs]
  split
  · next hle =>
    rw [cut_start_eq htext hs, startIndex_eq htext hs]
    change Except.ok (s.size .utf16 + (r.reach p s.endPoint).size .utf16) = _
    rw [← Text.size_append, Text.append_reach_eq_firstReaching s r hle, ← htext]
  · rw [Text.reach_origin_eq]
    rfl

/-- The offset of a point is the length of the shortest beginning that reaches it. -/
theorem pointIndex_eq_size_firstReaching (text : Text) (tree : Tree) (p : Point)
    (hw : tree.WellFormed text) (hq : text.toBytePoint p = .ok q) :
    pointIndex ⟨text, tree⟩ p = .ok ((text.firstReaching p).size .utf16) ∧
      ∀ s : Text, s <+: text → s.endPoint = p →
        pointIndex ⟨text, tree⟩ p = .ok (s.size .utf16) := by
  have hindex : pointIndex ⟨text, tree⟩ p = .ok ((text.firstReaching p).size .utf16) :=
    pointIndex_eq hw hq
  refine ⟨hindex, ?_⟩
  rintro s ⟨r, rfl⟩ rfl
  rw [hindex, Text.firstReaching_endPoint]

theorem pointIndex_of_wrapped_row :
    let text : Text := ['é', '😀', '\n', 'x']
    let tree : Tree :=
      .node "program" ⟨0, 8⟩ false
        [.node "string" ⟨0, 6⟩ false [], .node "identifier" ⟨7, 8⟩ false []]
    tree.WellFormed text ∧ text.toBytePoint ⟨0x100000000, 0⟩ = .ok ⟨0x100000000, 0⟩ ∧
      pointIndex ⟨text, tree⟩ ⟨0x100000000, 0⟩ = .ok 5 :=
  ⟨by decide, rfl, (pointIndex_eq_size_firstReaching _ _ _ (by decide) rfl).1.trans (by decide)⟩

/-- Past the end of a row that is not the last the offset is that of the next row. -/
theorem pointIndex_eq_indexOfByte_or_succ (text : Text) (tree : Tree) (p : Point)
    (hw : tree.WellFormed text) (hq : text.toBytePoint p = .ok q) :
    ∃ n, text.byteOf p = .ok n ∧
      (text.lineCount ≤ p.row + 1 ∨ text.HasPoint p →
        pointIndex ⟨text, tree⟩ p = .ok (text.indexOfByte n)) ∧
      ∀ line, text.line? p.row = some line → p.row + 1 < text.lineCount →
        line.size .utf16 < p.column →
        pointIndex ⟨text, tree⟩ p = .ok (text.indexOfByte n + 1) ∧
          ∃ start, text.lineStarts[p.row + 1]? = some start ∧
            text.indexOfByte start = text.indexOfByte n + 1 := by
  have hindex : pointIndex ⟨text, tree⟩ p = .ok ((text.firstReaching p).size .utf16) :=
    pointIndex_eq hw hq
  have hbyte : text.indexOfByte ((text.firstReaching (text.clamp p)).size .utf8) =
      (text.firstReaching (text.clamp p)).size .utf16 :=
    Text.indexOfByte_of_isPrefix (text.firstReaching_isPrefix _)
  refine ⟨_, Text.byteOf_eq hq, ?_, ?_⟩
  · intro hp
    rw [hindex, hbyte, Text.firstReaching_clamp hp]
  · intro line hline hrow hcolumn
    obtain ⟨before, after, htext, hcount, hclamp, hscan⟩ :=
      Text.exists_append_of_past_line hline hrow hcolumn
    have hnext : text = before ++ ['\n'] ++ after := by
      rw [htext, List.append_assoc]
      rfl
    have hsize : Text.size .utf16 (before ++ ['\n']) = before.size .utf16 + 1 := by
      rw [Text.size_append]
      rfl
    rw [hindex, hbyte, hscan, hclamp, hsize]
    refine ⟨rfl, ?_⟩
    obtain ⟨start, hstart, hstop⟩ := Text.lineStarts_append (before ++ ['\n']) after
    rw [Text.lastLine_concat_newline, Text.size_nil, Nat.add_zero] at hstop
    rw [List.count_append, hcount, ← hnext] at hstart
    refine ⟨start, hstart, ?_⟩
    rw [hstop, hnext, Text.indexOfByte_append, hsize]

theorem pointIndex_past_surrogate_pair :
    let text : Text := ['é', '😀', '\n', 'x']
    let tree : Tree :=
      .node "program" ⟨0, 8⟩ false
        [.node "string" ⟨0, 6⟩ false [], .node "identifier" ⟨7, 8⟩ false []]
    tree.WellFormed text ∧ text.toBytePoint ⟨0, 2⟩ = .ok ⟨0, 6⟩ ∧ text.HasPoint ⟨0, 2⟩ ∧
      text.byteOf ⟨0, 2⟩ = .ok 6 ∧ pointIndex ⟨text, tree⟩ ⟨0, 2⟩ = .ok (text.indexOfByte 6) ∧
      text.toBytePoint ⟨0, 9⟩ = .ok ⟨0, 12⟩ ∧ text.line? 0 = some ['é', '😀'] ∧
      text.byteOf ⟨0, 9⟩ = .ok 6 ∧
      pointIndex ⟨text, tree⟩ ⟨0, 9⟩ = .ok (text.indexOfByte 6 + 1) := by
  intro text tree
  have hw : tree.WellFormed text := by decide
  have hinside : text.HasPoint ⟨0, 2⟩ := ⟨['é', '😀'], rfl, by decide⟩
  obtain ⟨n, hn, hsame, _⟩ := pointIndex_eq_indexOfByte_or_succ text tree ⟨0, 2⟩ hw rfl
  obtain ⟨m, hm, _, hsucc⟩ := pointIndex_eq_indexOfByte_or_succ text tree ⟨0, 9⟩ hw rfl
  cases hn
  cases hm
  exact ⟨hw, rfl, hinside, rfl, hsame (.inr hinside), rfl, rfl, rfl,
    (hsucc _ rfl (by decide) (by decide)).1⟩

end StructEdit.Document
