import StructEdit.Proofs.Edit.Region
import StructEdit.Proofs.Offset

namespace StructEdit

theorem Text.size_append_upTo (e f : Encoding) {s x i y : Text} (h : s <+: x ++ i ++ y) :
    Text.size f (x ++ i.upTo e (s.size e - x.size e)) =
      max (x.size f) (min (Text.size f (x ++ i)) (s.size f)) := by
  rw [List.append_assoc] at h
  rcases List.prefix_or_prefix_of_prefix h ⟨i ++ y, rfl⟩ with ⟨z, rfl⟩ | ⟨t, rfl⟩
  · have hsub : s.size e - Text.size e (s ++ z) = 0 := by
      rw [size_append]
      omega
    rw [hsub, upTo_zero, List.append_nil]
    simp only [size_append]
    omega
  · have ht : t <+: i ++ y := (List.prefix_append_right_inj x).mp h
    have hsub : Text.size e (x ++ t) - x.size e = Text.size e t := by
      rw [size_append]
      omega
    rw [hsub]
    rcases List.prefix_or_prefix_of_prefix ht ⟨y, rfl⟩ with ⟨z, rfl⟩ | ⟨z, rfl⟩
    · rw [upTo_append]
      simp only [size_append]
      omega
    · rw [upTo_of_size_le (by rw [size_append]; omega)]
      simp only [size_append]
      omega

namespace Document

variable {doc : Document} {tables : Tables} {p : Point} {r : Replacement}

theorem toBytePoint_of_pointIndex {n : Nat} (h : doc.pointIndex p = .ok n) :
    ∃ q, doc.text.toBytePoint p = .ok q := by
  obtain ⟨c, hc, _⟩ := exists_of_bind_ok h
  obtain ⟨q, hq, _⟩ := exists_of_bind_ok hc
  exact ⟨q, hq⟩

/-- The halves make up the inner text and meet where the scan for the point ends. -/
theorem halves_eq {opening closing : Tree} {x inner y left right : Text}
    (hw : doc.tree.WellFormed doc.text) (htext : doc.text = x ++ inner ++ y)
    (hx : x.size .utf8 = opening.stop) (hinner : Text.size .utf8 (x ++ inner) = closing.start)
    (h : doc.halves opening closing p = .ok (left, right)) :
    inner = left ++ right ∧ Text.size .utf8 (x ++ left) =
      max opening.stop (min closing.start ((doc.text.firstReaching p).size .utf8)) := by
  obtain ⟨inner', hslice, h⟩ := exists_of_bind_ok h
  obtain ⟨index, hindex, h⟩ := exists_of_bind_ok h
  have hle : opening.stop ≤ closing.start := by
    rw [← hx, ← hinner]
    exact Text.size_le_append .utf8 x inner
  rw [Nat.max_eq_left hle, htext, ← hx, ← hinner, Text.slice_append_append] at hslice
  cases hslice
  obtain ⟨q, hq⟩ := toBytePoint_of_pointIndex hindex
  rw [pointIndex_eq hw hq] at hindex
  cases hindex
  have hbase : doc.text.indexOfByte opening.stop = x.size .utf16 := by
    rw [htext, ← hx, List.append_assoc, Text.indexOfByte_append]
  obtain ⟨rest, hrest⟩ := Text.upTo_isPrefix .utf16 inner
    ((doc.text.firstReaching p).size .utf16 - x.size .utf16)
  have hcut := Text.cut_append (inner.upTo .utf16
    ((doc.text.firstReaching p).size .utf16 - x.size .utf16)) rest
  rw [hrest] at hcut
  rw [hbase, Text.byteOfUnits, hcut] at h
  cases h
  have hs := doc.text.firstReaching_isPrefix p
  conv at hs => rhs; rw [htext]
  rw [Text.size_append_upTo .utf16 .utf8 hs, hx, hinner]
  exact ⟨hrest.symm, rfl⟩

theorem exists_append_delimited {text : Text} {opening closing : Tree} (ho : opening.Fits text)
    (hc : closing.Fits text) (hle : opening.stop ≤ closing.start) :
    ∃ a o i c b, text = a ++ o ++ i ++ c ++ b ∧ a.size .utf8 = opening.start ∧
      Text.size .utf8 (a ++ o) = opening.stop ∧ Text.size .utf8 (a ++ o ++ i) = closing.start ∧
      Text.size .utf8 (a ++ o ++ i ++ c) = closing.stop := by
  obtain ⟨a, o, z, htext, hstart, hstop⟩ := ho.exists_append
  obtain ⟨x, i, y, htext', hx, hi⟩ :=
    ho.stop_boundary.exists_append_append hc.start_boundary hle
  obtain ⟨w, c, b, htext'', hstart', hstop'⟩ := hc.exists_append
  have hopening : a ++ o ++ z = x ++ (i ++ y) := by
    rw [← htext, htext', List.append_assoc]
  obtain ⟨rfl, -⟩ := Text.append_inj_of_size hopening (hstop.trans hx.symm)
  have hinner : a ++ o ++ i ++ y = w ++ (c ++ b) := by
    rw [← htext', htext'', List.append_assoc]
  obtain ⟨rfl, -⟩ := Text.append_inj_of_size hinner (hi.trans hstart'.symm)
  exact ⟨a, o, i, c, b, htext'', hstart, hstop, hi, hstop'⟩

theorem split_of_children {c : Cursor} {opening closing : Tree} {elements : List Tree}
    (hfound : doc.enclosingAt tables.splittable p = .ok (some c))
    (hchildren : c.node.children = opening :: (elements ++ [closing]))
    (h : doc.split tables p = .ok (some r)) :
    ∃ point left right openText closeText,
      doc.halves opening closing point = .ok (left, right) ∧
      doc.textOf opening = .ok openText ∧ doc.textOf closing = .ok closeText ∧
      r = ⟨doc.startPoint c.node, doc.endPoint c.node,
        openText ++ left ++ closeText ++
        separator tables ((c.parent?.map Cursor.kind).getD "") ++
          openText ++ right ++ closeText, some point⟩ := by
  obtain ⟨c', opening', elements', closing', point, left, right, openText, closeText, hfound',
    hchildren', _, hhalves, hopen, hclose, hr⟩ := split_eq_some h
  rw [hfound] at hfound'
  cases hfound'
  rw [hchildren, List.cons.injEq] at hchildren'
  obtain ⟨rfl, hrest⟩ := hchildren'
  obtain ⟨rfl, hlast⟩ := List.append_inj' hrest rfl
  cases hlast
  exact ⟨point, left, right, openText, closeText, hhalves, hopen, hclose, hr⟩

/-- A split only inserts: at the cut, the closing text, the separator and the opening text. -/
theorem split_inserts_at_cut {c : Cursor} {opening closing : Tree} {elements : List Tree}
    (hw : doc.WellFormed) (hfound : doc.enclosingAt tables.splittable p = .ok (some c))
    (hchildren : c.node.children = opening :: (elements ++ [closing]))
    (hstart : opening.start = c.node.start) (hstop : closing.stop = c.node.stop)
    (h : doc.split tables p = .ok (some r)) :
    ∃ point openText closeText before after,
      r.point = some point ∧ doc.textOf opening = .ok openText ∧
      doc.textOf closing = .ok closeText ∧ doc.text = before ++ after ∧
      before.size .utf8 =
        max opening.stop (min closing.start ((doc.text.firstReaching point).size .utf8)) ∧
      r.apply doc.text = .ok (before ++ closeText ++
        (Text.trimEnd ((tables.delimiters.lookup ((c.parent?.map Cursor.kind).getD "")).getD
          " ").toList ++ [' ']) ++ openText ++ after) := by
  obtain ⟨point, left, right, openText, closeText, hhalves, hopen, hclose, hr⟩ :=
    split_of_children hfound hchildren h
  have hnode := enclosingAt_within hfound
  have hle : opening.stop ≤ closing.start := by
    have hordered := (hnode.fits hw.tree).ordered
    rw [hchildren] at hordered
    exact List.rel_of_pairwise_cons hordered (by simp)
  obtain ⟨a, o, i, cl, b, htext, ha, ho, hi, hcl⟩ := exists_append_delimited
    (hnode.child_fits hw.tree (by rw [hchildren]; simp))
    (hnode.child_fits hw.tree (by rw [hchildren]; simp)) hle
  have htext' : doc.text = a ++ o ++ i ++ (cl ++ b) := by rw [htext, List.append_assoc]
  obtain ⟨rfl, hcut⟩ := halves_eq hw.tree htext' ho hi hhalves
  have hopen' : doc.textOf opening = .ok o :=
    textOf_eq (c := left ++ right ++ cl ++ b) (by rw [htext]; simp) ha ho
  rw [hopen] at hopen'
  cases hopen'
  rw [textOf_eq htext hi hcl] at hclose
  cases hclose
  have hinner : doc.text = a ++ (openText ++ (left ++ right) ++ closeText) ++ b := by
    rw [htext]
    simp
  have hrstart : r.start = a.endPoint := by
    rw [hr]
    exact startPoint_eq (hinner.trans (List.append_assoc _ _ _)) (ha.trans hstart)
  have hrstop : r.stop = Text.endPoint (a ++ (openText ++ (left ++ right) ++ closeText)) := by
    rw [hr]
    refine endPoint_eq hinner ?_
    rw [← hstop, ← hcl]
    simp
  refine ⟨point, openText, closeText, a ++ openText ++ left, right ++ closeText ++ b,
    by rw [hr], hopen, textOf_eq htext hi hcl, ?_, hcut, ?_⟩
  · rw [htext]
    simp
  · rw [Replacement.apply_eq hinner hw.addressable hrstart hrstop, hr]
    simp [separator, Tables.delimiterFor]

theorem split_inserts_at_surrogate_pair :
    let opening : Tree := .node "[" ⟨1, 2⟩ false []
    let closing : Tree := .node "]" ⟨10, 11⟩ false []
    let elements : List Tree := [.node "identifier" ⟨2, 4⟩ false [], .node "," ⟨4, 5⟩ false [],
      .node "identifier" ⟨6, 10⟩ false []]
    let inner : Tree := .node "array" ⟨1, 11⟩ false (opening :: (elements ++ [closing]))
    let outer : Tree := .node "array" ⟨0, 12⟩ false
      [.node "[" ⟨0, 1⟩ false [], inner, .node "]" ⟨11, 12⟩ false []]
    let doc : Document := ⟨['[', '[', 'é', ',', ' ', '😀', ']', ']'], outer⟩
    let c : Cursor := ⟨inner, [⟨outer, 1⟩]⟩
    let tables : Tables := { splittable := ["array"], delimiters := [("array", ",  ")] }
    let r : Replacement := ⟨⟨0, 1⟩, ⟨0, 8⟩,
      ['[', 'é', ',', ' ', '😀', ']', ',', ' ', '[', ']'], some ⟨0, 6⟩⟩
    doc.WellFormed ∧ doc.enclosingAt tables.splittable ⟨0, 6⟩ = .ok (some c) ∧
      doc.split tables ⟨0, 6⟩ = .ok (some r) ∧
      ∃ point openText closeText before after,
        r.point = some point ∧ doc.textOf opening = .ok openText ∧
        doc.textOf closing = .ok closeText ∧ doc.text = before ++ after ∧
        before.size .utf8 =
          max opening.stop (min closing.start ((doc.text.firstReaching point).size .utf8)) ∧
        r.apply doc.text = .ok (before ++ closeText ++
          (Text.trimEnd ((tables.delimiters.lookup ((c.parent?.map Cursor.kind).getD "")).getD
            " ").toList ++ [' ']) ++ openText ++ after) := by
  intro opening closing elements inner outer doc c tables r
  have hw : doc.WellFormed := by decide
  have hfound : doc.enclosingAt tables.splittable ⟨0, 6⟩ = .ok (some c) := rfl
  have hsplit : doc.split tables ⟨0, 6⟩ = .ok (some r) := by decide
  have hchildren : c.node.children = opening :: (elements ++ [closing]) := rfl
  exact ⟨hw, hfound, hsplit, split_inserts_at_cut hw hfound hchildren rfl rfl hsplit⟩

/-- A root is split with the delimiter set for the empty name. -/
theorem split_root_takes_empty_name :
    let opening : Tree := .node "hash_bang_line" ⟨0, 9⟩ false []
    let closing : Tree := .node "expression_statement" ⟨10, 14⟩ false []
    let root : Tree := .node "program" ⟨0, 14⟩ false [opening, closing]
    let before : Text := ['#', '!', 's', 'h', 'e', 'b', 'a', 'n', 'g', '\n']
    let openText : Text := ['#', '!', 's', 'h', 'e', 'b', 'a', 'n', 'g']
    let closeText : Text := ['f', '(', 'x', ')']
    let doc : Document := ⟨before ++ closeText, root⟩
    let tables : Tables := { splittable := ["program"], delimiters := [("", ",")] }
    let r : Replacement := ⟨⟨0, 0⟩, ⟨1, 4⟩,
      before ++ closeText ++ [',', ' '] ++ openText ++ closeText, some ⟨1, 0⟩⟩
    doc.WellFormed ∧ doc.enclosingAt tables.splittable ⟨1, 0⟩ = .ok (some ⟨root, []⟩) ∧
      doc.split tables ⟨1, 0⟩ = .ok (some r) ∧ doc.textOf opening = .ok openText ∧
      doc.textOf closing = .ok closeText ∧
      before.size .utf8 =
        max opening.stop (min closing.start ((doc.text.firstReaching ⟨1, 0⟩).size .utf8)) ∧
      r.apply doc.text ≠ .ok (before ++ closeText ++ (Text.trimEnd " ".toList ++ [' ']) ++
        openText ++ closeText) :=
  ⟨by decide, rfl, by decide, rfl, rfl, by decide, by decide⟩

end Document

end StructEdit
