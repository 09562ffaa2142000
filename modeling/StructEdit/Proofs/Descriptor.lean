import StructEdit.Descriptor
import StructEdit.Proofs.Offset

namespace StructEdit

def Text.boundary (s : Text) : Boundary := ⟨s.endPoint, s.size .utf16⟩

namespace Document

variable {doc : Document} {t : Tree} {s before inner after : Text}

theorem describe_eq (htext : doc.text = before ++ inner ++ after)
    (hstart : before.size .utf8 = t.start)
    (hstop : Text.size .utf8 (before ++ inner) = t.stop) :
    doc.describe t = .ok ⟨t.kind, inner, before.boundary, Text.boundary (before ++ inner)⟩ := by
  have htext' : doc.text = before ++ (inner ++ after) := by
    rw [htext, List.append_assoc]
  rw [describe, textOf_eq htext hstart hstop, ok_bind, startPoint_eq htext' hstart,
    startIndex_eq htext' hstart, endPoint_eq htext hstop, endIndex_eq htext hstop]
  rfl

theorem WellFormed.byteOf_boundary (hw : doc.WellFormed) (h : s <+: doc.text) :
    doc.text.byteOf s.boundary.point = .ok (s.size .utf8) := by
  obtain ⟨text, tree⟩ := doc
  obtain ⟨r, rfl⟩ := h
  exact Text.byteOf_append s r hw.addressable

theorem WellFormed.pointIndex_boundary (hw : doc.WellFormed) (h : s <+: doc.text) :
    doc.pointIndex s.boundary.point = .ok s.boundary.index := by
  obtain ⟨text, tree⟩ := doc
  obtain ⟨r, rfl⟩ := h
  have hindex := pointIndex_eq hw.tree (Text.toBytePoint_append s r hw.addressable)
  rw [Text.firstReaching_endPoint] at hindex
  exact hindex

/-- The points, offsets and text of a description are those of one range of bytes. -/
theorem describe_gives_one_range (hw : doc.WellFormed) (ht : t ∈ doc.tree.preorder) :
    ∃ d, doc.describe t = .ok d ∧ d.start.point ≤ d.stop.point ∧
      doc.text.byteOf d.start.point = .ok t.start ∧ doc.text.byteOf d.stop.point = .ok t.stop ∧
      doc.pointIndex d.start.point = .ok d.start.index ∧
      doc.pointIndex d.stop.point = .ok d.stop.index ∧
      d.start.index ≤ d.stop.index ∧ d.text.size .utf16 = d.stop.index - d.start.index ∧
      ∃ before after, doc.text = before ++ d.text ++ after ∧
        before.size .utf16 = d.start.index ∧
        Text.size .utf16 (before ++ d.text) = d.stop.index ∧
        before.size .utf8 = t.start ∧ Text.size .utf8 (before ++ d.text) = t.stop := by
  obtain ⟨before, inner, after, htext, hstart, hstop⟩ := (hw.tree t ht).exists_append
  have hinner : before ++ inner <+: doc.text := ⟨after, htext.symm⟩
  have hbefore : before <+: doc.text := (List.prefix_append before inner).trans hinner
  have hle : before.size .utf16 ≤ Text.size .utf16 (before ++ inner) :=
    Text.size_le_append .utf16 before inner
  have hlength : inner.size .utf16 =
      Text.size .utf16 (before ++ inner) - before.size .utf16 := by
    rw [Text.size_append, Nat.add_sub_cancel_left]
  refine ⟨_, describe_eq htext hstart hstop,
    Text.endPoint_le_of_isPrefix (List.prefix_append before inner), ?_, ?_,
    hw.pointIndex_boundary hbefore, hw.pointIndex_boundary hinner, hle, hlength, before, after,
    htext, rfl, rfl, hstart, hstop⟩
  · rw [← hstart]
    exact hw.byteOf_boundary hbefore
  · rw [← hstop]
    exact hw.byteOf_boundary hinner

theorem describe_gives_range_over_lines :
    let block : Tree := .node "block" ⟨2, 8⟩ false
      [.node "identifier" ⟨7, 8⟩ false [], .node ";" ⟨8, 8⟩ true []]
    let doc : Document := {
      text := ['é', '😀', '\n', 'x', 'é']
      tree := .node "program" ⟨0, 10⟩ false [.node "identifier" ⟨0, 2⟩ false [], block] }
    let d : Descriptor := ⟨"block", ['😀', '\n', 'x'], ⟨⟨0, 1⟩, 1⟩, ⟨⟨1, 1⟩, 5⟩⟩
    doc.WellFormed ∧ block ∈ doc.tree.preorder ∧ doc.describe block = .ok d ∧
      d.start.point ≤ d.stop.point ∧
      doc.text.byteOf ⟨0, 1⟩ = .ok 2 ∧ doc.text.byteOf ⟨1, 1⟩ = .ok 8 ∧
      doc.pointIndex ⟨0, 1⟩ = .ok 1 ∧ doc.pointIndex ⟨1, 1⟩ = .ok 5 ∧
      d.text.size .utf16 = 5 - 1 ∧
      ∃ before after, doc.text = before ++ d.text ++ after ∧
        before.size .utf16 = 1 ∧ Text.size .utf16 (before ++ d.text) = 5 := by
  intro block doc d
  have hw : doc.WellFormed := by decide
  have hblock : block ∈ doc.tree.preorder := Tree.mem_preorder_of_mem_children
    (Tree.self_mem_preorder _) (List.mem_cons_of_mem _ List.mem_cons_self)
  obtain ⟨d', hd, hle, hstart, hstop, hindex, hindex', _, hsize, before, after, htext, hbefore,
    hinner, _⟩ := describe_gives_one_range hw hblock
  have hd' : doc.describe block = .ok d := rfl
  cases hd'.symm.trans hd
  exact ⟨hw, hblock, hd, hle, hstart, hstop, hindex, hindex', hsize, before, after, htext,
    hbefore, hinner⟩

end Document

end StructEdit
