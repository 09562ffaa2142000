import StructEdit.Proofs.Edit.Elements
import StructEdit.Proofs.Text.Clamp

namespace StructEdit

namespace Replacement

/-- An edit between any two points replaces what is between their byte offsets. -/
theorem apply_between_any_points (t : Text) :
    (∀ (p q : Point) (p' q' : BytePoint), t.toBytePoint p = .ok p' → t.toBytePoint q = .ok q' →
      p ≤ q → ∃ m n, t.byteOf p = .ok m ∧ t.byteOf q = .ok n ∧ m ≤ n ∧ n ≤ t.size .utf8 ∧
        t.IsBoundary m ∧ t.IsBoundary n) ∧
    ∀ (r : Replacement) (p' q' : BytePoint), t.toBytePoint r.start = .ok p' →
      t.toBytePoint r.stop = .ok q' →
      ∃ m n, t.byteOf r.start = .ok m ∧ t.byteOf r.stop = .ok n ∧
        (r.start ≤ r.stop → r.Replaces t ⟨m, n⟩) ∧
        (r.stop < r.start → ∃ before after, t = before ++ after ∧ before.size .utf8 = m ∧
          r.apply t = .ok (before ++ r.content ++ after)) := by
  constructor
  · intro p q p' q' hp hq hle
    obtain ⟨before, inner, after, htext, hm, hn⟩ := Text.exists_append_of_le hp hq hle
    have hprefix : before ++ inner <+: t := ⟨after, htext.symm⟩
    exact ⟨_, _, hm, hn, Text.size_le_append .utf8 before inner,
      Text.size_le_of_isInfix .utf8 hprefix.isInfix,
      Text.isBoundary_of_isPrefix ((List.prefix_append before inner).trans hprefix),
      Text.isBoundary_of_isPrefix hprefix⟩
  · intro r p' q' hp hq
    rcases le_or_gt r.start r.stop with hle | hlt
    · obtain ⟨before, inner, after, htext, hm, hn⟩ := Text.exists_append_of_le hp hq hle
      have hmax := Nat.max_eq_left (Text.size_le_append .utf8 before inner)
      refine ⟨_, _, hm, hn, fun _ => ?_, fun hlt => absurd hle (not_le_of_gt hlt)⟩
      exact ⟨hle, before, inner, after, htext, rfl, rfl, apply_of_byteOf htext hm hn hmax⟩
    · obtain ⟨before, inner, after, htext, hn, hm⟩ :=
        Text.exists_append_of_le hq hp (le_of_lt hlt)
      have htext' : t = before ++ inner ++ [] ++ after := by
        rw [List.append_nil]
        exact htext
      have hmax : max (before.size .utf8) (Text.size .utf8 (before ++ inner)) =
          Text.size .utf8 (before ++ inner ++ []) := by
        rw [List.append_nil]
        exact Nat.max_eq_right (Text.size_le_append .utf8 before inner)
      refine ⟨_, _, hm, hn, fun hle => absurd hle (not_le_of_gt hlt), fun _ => ?_⟩
      exact ⟨before ++ inner, after, htext, rfl, apply_of_byteOf htext' hm hn hmax⟩

theorem apply_between_points_outside :
    let t : Text := ['😀', 'é', '\n', 'x']
    let forward : Replacement := ⟨⟨0, 1⟩, ⟨0, 9⟩, ['-'], none⟩
    let backward : Replacement := ⟨⟨5, 0⟩, ⟨0, 9⟩, ['-'], none⟩
    t.toBytePoint ⟨0, 1⟩ = .ok ⟨0, 4⟩ ∧ t.toBytePoint ⟨0, 9⟩ = .ok ⟨0, 12⟩ ∧
      t.toBytePoint ⟨5, 0⟩ = .ok ⟨5, 0⟩ ∧ (⟨0, 9⟩ : Point) ≤ ⟨5, 0⟩ ∧
      (∃ m n, t.byteOf ⟨0, 9⟩ = .ok m ∧ t.byteOf ⟨5, 0⟩ = .ok n ∧ m ≤ n ∧ n ≤ t.size .utf8 ∧
        t.IsBoundary m ∧ t.IsBoundary n) ∧
      forward.Replaces t ⟨4, 6⟩ ∧
      ∃ before after, t = before ++ after ∧ before.size .utf8 = 8 ∧
        backward.apply t = .ok (before ++ ['-'] ++ after) := by
  intro t forward backward
  obtain ⟨hmono, happly⟩ := apply_between_any_points t
  obtain ⟨m, n, hm, hn, hforward, _⟩ := happly forward ⟨0, 4⟩ ⟨0, 12⟩ rfl rfl
  obtain ⟨m', n', hm', hn', _, hbackward⟩ := happly backward ⟨5, 0⟩ ⟨0, 12⟩ rfl rfl
  cases hm
  cases hn
  cases hm'
  cases hn'
  exact ⟨rfl, rfl, rfl, by decide, hmono _ _ _ _ rfl rfl (by decide), hforward (by decide),
    hbackward (by decide)⟩

end Replacement

theorem Text.isPrefix_append_of_slice {s t u : Text} {n : Nat} (hs : s <+: t)
    (h : t.slice (s.size .utf8) n = .ok u) : s ++ u <+: t ∧ Text.size .utf8 (s ++ u) = n := by
  obtain ⟨a, c, htext, hsize, hstop⟩ := exists_append_of_slice h
  obtain ⟨r, rfl⟩ := hs
  rw [List.append_assoc] at htext
  obtain ⟨rfl, rfl⟩ := append_inj_of_size htext hsize.symm
  exact ⟨⟨c, List.append_assoc s u c⟩, hstop⟩

namespace Document

variable {doc : Document} {tables : Tables} {p point : Point} {r : Replacement}
  {opening closing : Tree} {elements : List Tree} {before left right openText closeText : Text}

theorem snap_eq_or (h : doc.snap elements p = .ok point) :
    point = p ∨ ∃ m ∈ elements, point = doc.startPoint m := by
  rw [snap] at h
  split at h
  · cases h
    exact .inl rfl
  · obtain ⟨q, _, h⟩ := exists_of_bind_ok h
    split at h
    · next m hm =>
      cases h
      exact .inr ⟨m, List.mem_of_find?_eq_some hm, rfl⟩
    · cases h
      exact .inl rfl

theorem hasPoint_startPoint {t : Tree} (ht : t.Fits doc.text) :
    doc.text.HasPoint (doc.startPoint t) := by
  obtain ⟨s, r, htext, hs⟩ := ht.start_boundary.exists_append
  rw [startPoint_eq htext hs]
  exact Text.hasPoint_endPoint ⟨r, htext.symm⟩

theorem firstReaching_isPrefix_of_halves (hw : doc.tree.WellFormed doc.text)
    (hd : Delimited doc.text opening elements closing) (hbefore : before <+: doc.text)
    (hsize : before.size .utf8 = opening.start) (hopen : doc.textOf opening = .ok openText)
    (hclose : doc.textOf closing = .ok closeText)
    (hhalves : doc.halves opening closing point = .ok (left, right))
    (hscan : (doc.text.firstReaching point).size .utf8 ≤ closing.stop) :
    doc.text.firstReaching point <+: before ++ openText ++ left ++ closeText := by
  obtain ⟨hleft, _⟩ := slices_of_halves hw hd hhalves
  rw [textOf, ← hsize] at hopen
  obtain ⟨hopening, hopening'⟩ := Text.isPrefix_append_of_slice hbefore hopen
  rw [← hopening'] at hleft
  obtain ⟨hcut, hcut'⟩ := Text.isPrefix_append_of_slice hopening hleft
  have hcursor := doc.text.firstReaching_isPrefix point
  rcases le_or_gt ((doc.text.firstReaching point).size .utf8) closing.start with hle | hgt
  · have hle' : (doc.text.firstReaching point).size .utf8 ≤
        Text.size .utf8 (before ++ openText ++ left) := by
      rw [hcut', cutAt]
      omega
    exact (Text.isPrefix_of_size_le hcursor hcut hle').trans (List.prefix_append _ _)
  · -- the cursor is inside the closing child, and the cut is at its start
    have hstart : doc.cutAt opening closing point = closing.start := by
      have hle := hd.opening_le_closing
      rw [cutAt]
      omega
    rw [textOf, ← hstart, ← hcut'] at hclose
    obtain ⟨hall, hall'⟩ := Text.isPrefix_append_of_slice hcut hclose
    rw [← hall'] at hscan
    exact Text.isPrefix_of_size_le hcursor hall hscan

/-- The text before the cursor is the same before and after a split. -/
theorem split_keeps_cursor {c : Cursor} {n : Nat} (hw : doc.WellFormed)
    (hp : doc.text.HasPoint p)
    (hfound : doc.enclosingAt tables.splittable p = .ok (some c))
    (hstart : c.node.children.head?.map Tree.start = some c.node.start)
    (hstop : c.node.children.getLast?.map Tree.stop = some c.node.stop)
    (hn : doc.text.byteOf p = .ok n) (hle : n ≤ c.node.stop)
    (h : doc.split tables p = .ok (some r)) :
    ∃ q m edited kept after after', r.point = some q ∧ r.apply doc.text = .ok edited ∧
      doc.text.byteOf q = .ok m ∧ kept.size .utf8 = m ∧ doc.text = kept ++ after ∧
      edited = kept ++ after' ∧ edited.byteOf q = .ok m := by
  obtain ⟨c', opening, elements, closing, point, left, right, openText, closeText, hfound',
    hchildren, hsnap, hhalves, hopen, hclose, hr⟩ := split_eq_some h
  cases hfound.symm.trans hfound'
  have hnode := enclosingAt_within hfound
  have hd := hnode.delimited hw.tree hchildren
  rw [hchildren] at hstart
  replace hstart : opening.start = c.node.start := Option.some.inj hstart
  rw [hchildren, ← List.cons_append, List.getLast?_concat] at hstop
  replace hstop : closing.stop = c.node.stop := Option.some.inj hstop
  have hbyte {q : Point} (hq : doc.text.HasPoint q) :=
    hq.byteOf_of_isPrefix hw.addressable (doc.text.firstReaching_isPrefix q)
  have hpoint : doc.text.HasPoint point ∧
      (doc.text.firstReaching point).size .utf8 ≤ closing.stop := by
    rcases snap_eq_or hsnap with rfl | ⟨m, hm, rfl⟩
    · rw [hbyte hp, Except.ok.injEq] at hn
      refine ⟨hp, ?_⟩
      rw [hn, hstop]
      exact hle
    · have hfits := hd.fits m hm
      refine ⟨hasPoint_startPoint hfits, ?_⟩
      rw [size_firstReaching_startPoint hfits]
      exact hfits.start_le_stop.trans ((hd.le_closing m hm).trans hd.fits_closing.start_le_stop)
  obtain ⟨hpoint, hscan⟩ := hpoint
  obtain ⟨_, before, inner, after, htext, hbefore, _, happly⟩ :=
    hw.replaces_node (hnode.fits hw.tree) (congrArg Replacement.start hr)
      (congrArg Replacement.stop hr)
  have hprefix : before <+: doc.text := ⟨inner ++ after, by rw [htext, List.append_assoc]⟩
  have hkept := firstReaching_isPrefix_of_halves hw.tree hd hprefix
    (hbefore.trans hstart.symm) hopen
    hclose hhalves hscan
  have hedited : before ++ openText ++ left ++ closeText <+: before ++ r.content ++ after := by
    rw [hr]
    simp only [List.append_assoc]
    exact (List.prefix_append_right_inj _).mpr ((List.prefix_append_right_inj _).mpr
      ((List.prefix_append_right_inj _).mpr (List.prefix_append _ _)))
  obtain ⟨rest, hrest⟩ := doc.text.firstReaching_isPrefix point
  obtain ⟨rest', hrest'⟩ := hkept.trans hedited
  exact ⟨point, _, _, _, rest, rest', congrArg Replacement.point hr, happly, hbyte hpoint, rfl,
    hrest.symm, hrest'.symm, hpoint.byteOf_of_isPrefix hw.addressable (hkept.trans hedited)⟩

theorem split_keeps_cursor_in_delimiter :
    let string : Tree := .node "string" ⟨0, 8⟩ false [.node "[[" ⟨0, 2⟩ false [],
      .node "fragment" ⟨2, 6⟩ false [], .node "]]" ⟨6, 8⟩ false []]
    let root : Tree := .node "chunk" ⟨0, 8⟩ false [string]
    let doc : Document := ⟨['[', '[', '😀', ']', ']'], root⟩
    let tables : Tables := { splittable := ["string"] }
    let r : Replacement := ⟨⟨0, 0⟩, ⟨0, 6⟩,
      ['[', '[', '😀', ']', ']', ' ', '[', '[', ']', ']'], some ⟨0, 5⟩⟩
    doc.WellFormed ∧ doc.text.HasPoint ⟨0, 5⟩ ∧
      doc.enclosingAt tables.splittable ⟨0, 5⟩ = .ok (some ⟨string, [⟨root, 0⟩]⟩) ∧
      string.children.head?.map Tree.start = some string.start ∧
      string.children.getLast?.map Tree.stop = some string.stop ∧
      doc.text.byteOf ⟨0, 5⟩ = .ok 7 ∧ 7 ≤ string.stop ∧
      doc.split tables ⟨0, 5⟩ = .ok (some r) ∧
      ∃ q m edited kept after after', r.point = some q ∧ r.apply doc.text = .ok edited ∧
        doc.text.byteOf q = .ok m ∧ kept.size .utf8 = m ∧ doc.text = kept ++ after ∧
        edited = kept ++ after' ∧ edited.byteOf q = .ok m := by
  intro string root doc tables r
  have hw : doc.WellFormed := by decide
  have hp : doc.text.HasPoint ⟨0, 5⟩ := ⟨doc.text, rfl, by decide⟩
  have hfound : doc.enclosingAt tables.splittable ⟨0, 5⟩ =
      .ok (some ⟨string, [⟨root, 0⟩]⟩) := rfl
  have hle : 7 ≤ string.stop := by decide
  have hsplit : doc.split tables ⟨0, 5⟩ = .ok (some r) := by decide
  exact ⟨hw, hp, hfound, rfl, rfl, rfl, hle, hsplit,
    split_keeps_cursor hw hp hfound rfl rfl rfl hle hsplit⟩

end Document

end StructEdit
