import StructEdit.Proofs.Edit.Insertion

namespace StructEdit

namespace Text

variable {t t' : Text}

theorem size_perm (e : Encoding) (h : t.Perm t') : size e t = size e t' := by
  induction h with
  | nil => rfl
  | cons c _ ih => rw [size_cons, size_cons, ih]
  | swap c c' t => rw [size_cons, size_cons, size_cons, size_cons, Nat.add_left_comm]
  | trans _ _ ih ih' => exact ih.trans ih'

/-- Within a line the order of the characters does not matter for where they end. -/
theorem endPoint_append_perm (s : Text) (h : t.Perm t') (hline : '\n' ∉ t) :
    endPoint (s ++ t) = endPoint (s ++ t') := by
  have hline' : '\n' ∉ t' := fun hmem => hline (h.mem_iff.mpr hmem)
  rw [endPoint_append s hline, endPoint_append s hline', size_perm .utf16 h]

theorem exchange_perm (x gap d : Text) : (d ++ gap ++ x).Perm (x ++ gap ++ d) := by
  rw [List.append_assoc]
  exact List.perm_append_comm.trans (List.perm_append_comm.append_right d)

end Text

theorem Replacement.apply_back {r : Replacement} {text before inner after : Text}
    (htext : text = before ++ inner ++ after)
    (hsize : Text.size .utf8 (before ++ r.content ++ after) < addressLimit)
    (hstart : r.start = before.endPoint) :
    (⟨r.start, Text.endPoint (before ++ r.content), inner, none⟩ : Replacement).apply
      (before ++ r.content ++ after) = .ok text := by
  rw [htext]
  exact apply_eq rfl hsize hstart rfl

namespace Document

variable {doc : Document} {tables : Tables} {p : Point} {r : Replacement}
  {element delimiter : Tree} {before x gap d after : Text}

/-- The element `x` and the delimiter `d` after it, with `gap` between them. -/
structure Parts (doc : Document) (element delimiter : Tree) (before x gap d after : Text) :
    Prop where
  text : doc.text = before ++ (x ++ gap ++ d) ++ after
  start : before.size .utf8 = element.start
  stop : Text.size .utf8 (before ++ (x ++ gap ++ d)) = delimiter.stop
  textOf_element : doc.textOf element = .ok x
  between : doc.text.slice element.stop delimiter.start = .ok gap
  textOf_delimiter : doc.textOf delimiter = .ok d

theorem exists_parts (he : element.Fits doc.text) (hd : delimiter.Fits doc.text)
    (hle : element.stop ≤ delimiter.start) :
    ∃ before x gap d after, doc.Parts element delimiter before x gap d after := by
  obtain ⟨before, x, gap, d, after, htext, hbefore, hx, hgap, hd⟩ :=
    exists_append_delimited he hd hle
  refine ⟨before, x, gap, d, after, ?_, hbefore, ?_, ?_, ?_, textOf_eq htext hgap hd⟩
  · rw [htext]
    simp
  · rw [← hd]
    simp
  · refine textOf_eq (c := gap ++ d ++ after) ?_ hbefore hx
    rw [htext]
    simp
  · rw [htext, ← hx, ← hgap, List.append_assoc, Text.slice_append_append]

theorem Parts.startPoint_eq (h : doc.Parts element delimiter before x gap d after) :
    doc.startPoint element = before.endPoint :=
  Document.startPoint_eq (h.text.trans (List.append_assoc _ _ _)) h.start

theorem barf_eq_parts (hw : doc.WellFormed) (h : doc.barf tables p = .ok (some r)) :
    ∃ scope front element delimiter before x gap d after,
      doc.scopeAt tables.scopes p = .ok (some scope) ∧
      scope.node.children = front ++ [element, delimiter] ∧
      doc.Parts element delimiter before x gap d after ∧
      r = ⟨before.endPoint, Text.endPoint (before ++ (x ++ gap ++ d)), d ++ gap ++ x,
        none⟩ := by
  obtain ⟨scope, front, element, delimiter, gap, d, x, hfound, hchildren, _, hgap, hd, hx,
    hr⟩ :=
    barf_eq_some h
  have hscope := enclosingAt_within hfound
  have hmem : element ∈ scope.node.children ∧ delimiter ∈ scope.node.children := by
    rw [hchildren]
    simp
  have hle : element.stop ≤ delimiter.start := by
    have hordered := (hscope.fits hw.tree).ordered
    rw [hchildren] at hordered
    exact List.rel_of_pairwise_cons (List.pairwise_append.mp hordered).2.1 List.mem_cons_self
  obtain ⟨before, x', gap', d', after, hparts⟩ :=
    exists_parts (hscope.child_fits hw.tree hmem.1) (hscope.child_fits hw.tree hmem.2) hle
  rw [hparts.between] at hgap
  rw [hparts.textOf_delimiter] at hd
  rw [hparts.textOf_element] at hx
  cases hgap
  cases hd
  cases hx
  rw [hparts.startPoint_eq, endPoint_eq hparts.text hparts.stop] at hr
  exact ⟨scope, front, element, delimiter, before, x, gap, d, after, hfound, hchildren, hparts,
    hr⟩

/-- A barf exchanges the last two children of the scope, and the edit back restores the text. -/
theorem barf_can_be_taken_back (hw : doc.WellFormed) (h : doc.barf tables p = .ok (some r)) :
    ∃ scope front element delimiter before x gap d after edited stop,
      doc.scopeAt tables.scopes p = .ok (some scope) ∧
      scope.node.children = front ++ [element, delimiter] ∧
      doc.textOf element = .ok x ∧ doc.textOf delimiter = .ok d ∧
      doc.text.slice element.stop delimiter.start = .ok gap ∧
      before.size .utf8 = element.start ∧
      doc.text = before ++ (x ++ gap ++ d) ++ after ∧
      edited = before ++ (d ++ gap ++ x) ++ after ∧ r.apply doc.text = .ok edited ∧
      (∀ e : Encoding, edited.size e = doc.text.size e) ∧
      stop = edited.toPoint (edited.bytePointAt
        (before.size .utf8 + d.size .utf8 + gap.size .utf8 + x.size .utf8)) ∧
      (⟨r.start, stop, x ++ gap ++ d, none⟩ : Replacement).apply edited = .ok doc.text ∧
      ('\n' ∉ x ++ gap ++ d → stop = r.stop ∧
        (⟨r.start, r.stop, x ++ gap ++ d, none⟩ : Replacement).apply edited =
          .ok doc.text) := by
  obtain ⟨scope, front, element, delimiter, before, x, gap, d, after, hfound, hchildren, hparts,
    hr⟩ := barf_eq_parts hw h
  have hperm := Text.exchange_perm x gap d
  have hcontent : r.content = d ++ gap ++ x := by rw [hr]
  have hstart : r.start = before.endPoint := by rw [hr]
  have hstop : r.stop = Text.endPoint (before ++ (x ++ gap ++ d)) := by rw [hr]
  have hforth := Replacement.apply_eq hparts.text hw.addressable hstart hstop
  have hsizes (e : Encoding) :
      Text.size e (before ++ r.content ++ after) = doc.text.size e := by
    rw [hparts.text, hcontent]
    exact Text.size_perm e ((hperm.append_left before).append_right after)
  have hsize := hw.addressable
  rw [← hsizes .utf8] at hsize
  have hback := Replacement.apply_back hparts.text hsize hstart
  have hend : Text.endPoint (before ++ r.content) =
      Text.toPoint (before ++ r.content ++ after)
        (Text.bytePointAt (before ++ r.content ++ after)
        (before.size .utf8 + d.size .utf8 + gap.size .utf8 + x.size .utf8)) := by
    have hbytes : before.size .utf8 + d.size .utf8 + gap.size .utf8 + x.size .utf8 =
        Text.size .utf8 (before ++ r.content) := by
      rw [hcontent]
      simp only [Text.size_append, Nat.add_assoc]
    rw [hbytes, Text.bytePointAt_append, Text.toPoint_append]
  refine ⟨scope, front, element, delimiter, before, x, gap, d, after,
    before ++ r.content ++ after, Text.endPoint (before ++ r.content), hfound, hchildren,
    hparts.textOf_element,
    hparts.textOf_delimiter, hparts.between, hparts.start, hparts.text, by rw [hcontent],
    hforth,
    hsizes, hend, hback, ?_⟩
  intro hline
  have hsame : Text.endPoint (before ++ r.content) = r.stop := by
    rw [hstop, hcontent]
    exact (Text.endPoint_append_perm before hperm.symm hline).symm
  rw [hsame] at hback
  exact ⟨hsame, hback⟩

theorem barf_of_surrogate_pair_taken_back :
    let list : Tree := .node "array" ⟨0, 11⟩ false [.node "[" ⟨0, 1⟩ false [],
      .node "identifier" ⟨1, 3⟩ false [], .node "," ⟨3, 4⟩ false [],
      .node "identifier" ⟨5, 9⟩ false [], .node "]" ⟨10, 11⟩ false []]
    let doc : Document := ⟨['[', 'é', ',', ' ', '😀', ' ', ']'], list⟩
    let tables : Tables := { scopes := ["array"] }
    let r : Replacement := ⟨⟨0, 4⟩, ⟨0, 8⟩, [']', ' ', '😀'], none⟩
    let edited : Text := ['[', 'é', ',', ' ', ']', ' ', '😀']
    doc.WellFormed ∧ doc.barf tables ⟨0, 1⟩ = .ok (some r) ∧ r.apply doc.text = .ok edited ∧
      (⟨r.start, r.stop, ['😀', ' ', ']'], none⟩ : Replacement).apply edited = .ok doc.text := by
  intro list doc tables r edited
  have hw : doc.WellFormed := by decide
  have hbarf : doc.barf tables ⟨0, 1⟩ = .ok (some r) := rfl
  have happly : r.apply doc.text = .ok edited := by decide
  obtain ⟨scope, front, element, delimiter, before, x, gap, d, after, _, _, hfound, hchildren,
    hx, hd, hgap, _, _, _, happly', _, _, _, hline⟩ := barf_can_be_taken_back hw hbarf
  have hfound' : doc.scopeAt tables.scopes ⟨0, 1⟩ = .ok (some ⟨list, []⟩) := rfl
  rw [hfound'] at hfound
  cases hfound
  have hsplit : list.children.take 3 ++ list.children.drop 3 = front ++ [element, delimiter] :=
    hchildren
  obtain ⟨_, hlast⟩ := List.append_inj' hsplit rfl
  cases hlast
  cases hx
  cases hd
  cases hgap
  rw [happly] at happly'
  cases happly'
  exact ⟨hw, hbarf, happly, (hline (by decide)).2⟩

end Document

end StructEdit
