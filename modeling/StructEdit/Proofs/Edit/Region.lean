import StructEdit.Command
import StructEdit.Proofs.Document

namespace StructEdit

theorem liftM_eq_ok_iff {α : Type} {x : Checked α} {a : α} :
    (liftM x : Except EngineError α) = .ok a ↔ x = .ok a := by
  rcases x with e | a'
  · exact ⟨fun h => (nomatch h), fun h => (nomatch h)⟩
  · exact ⟨fun h => congrArg Except.ok (Except.ok.inj h),
      fun h => congrArg Except.ok (Except.ok.inj h)⟩

theorem Replacement.apply_of_byteOf {r : Replacement} {text before inner after : Text} {n : Nat}
    (htext : text = before ++ inner ++ after)
    (hstart : text.byteOf r.start = .ok (before.size .utf8))
    (hstop : text.byteOf r.stop = .ok n)
    (hn : max n (before.size .utf8) = Text.size .utf8 (before ++ inner)) :
    r.apply text = .ok (before ++ r.content ++ after) := by
  subst htext
  simp only [apply, hstart, hstop, ok_bind, hn, Text.cut_append_append, Text.cut_append]
  rfl

theorem Replacement.apply_eq {r : Replacement} {text before inner after : Text}
    (htext : text = before ++ inner ++ after) (hsize : text.size .utf8 < addressLimit)
    (hstart : r.start = before.endPoint) (hstop : r.stop = Text.endPoint (before ++ inner)) :
    r.apply text = .ok (before ++ r.content ++ after) := by
  have hbyte : text.byteOf r.start = .ok (before.size .utf8) := by
    rw [hstart]
    rw [htext, List.append_assoc] at hsize ⊢
    exact Text.byteOf_append before _ hsize
  have hbyte' : text.byteOf r.stop = .ok (Text.size .utf8 (before ++ inner)) := by
    rw [hstop]
    rw [htext] at hsize ⊢
    exact Text.byteOf_append _ after hsize
  exact apply_of_byteOf htext hbyte hbyte'
    (Nat.max_eq_left (Text.size_le_append .utf8 before inner))

/-- The edit puts its content in the place of the bytes of the span and nothing else. -/
def Replacement.Replaces (r : Replacement) (text : Text) (span : Span) : Prop :=
  r.start ≤ r.stop ∧ ∃ before inner after, text = before ++ inner ++ after ∧
    before.size .utf8 = span.start ∧ Text.size .utf8 (before ++ inner) = span.stop ∧
    r.apply text = .ok (before ++ r.content ++ after)

theorem Replacement.replaces_of_boundaries {r : Replacement} {text : Text} {m n : Nat}
    (hm : text.IsBoundary m) (hn : text.IsBoundary n) (hle : m ≤ n)
    (hsize : text.size .utf8 < addressLimit)
    (hstart : r.start = text.toPoint (text.bytePointAt m))
    (hstop : r.stop = text.toPoint (text.bytePointAt n)) : r.Replaces text ⟨m, n⟩ := by
  obtain ⟨before, inner, after, htext, hbefore, hinner⟩ := hm.exists_append_append hn hle
  have hstart' : r.start = before.endPoint := by
    rw [hstart, htext, ← hbefore, List.append_assoc, Text.bytePointAt_append,
      Text.toPoint_append]
  have hstop' : r.stop = Text.endPoint (before ++ inner) := by
    rw [hstop, htext, ← hinner, Text.bytePointAt_append, Text.toPoint_append]
  refine ⟨?_, before, inner, after, htext, hbefore, hinner, apply_eq htext hsize hstart' hstop'⟩
  rw [hstart', hstop']
  exact Text.endPoint_le_of_isPrefix (List.prefix_append before inner)

namespace Document

variable {doc : Document} {parser : Parser} {tables : Tables} {p : Point} {r : Replacement}

theorem split_eq_some (h : doc.split tables p = .ok (some r)) :
    ∃ c opening elements closing point left right before after,
      doc.enclosingAt tables.splittable p = .ok (some c) ∧
      c.node.children = opening :: (elements ++ [closing]) ∧
      doc.snap elements p = .ok point ∧
      doc.halves opening closing point = .ok (left, right) ∧
      doc.textOf opening = .ok before ∧ doc.textOf closing = .ok after ∧
      r = ⟨doc.startPoint c.node, doc.endPoint c.node,
        before ++ left ++ after ++ separator tables ((c.parent?.map Cursor.kind).getD "") ++
          before ++ right ++ after, some point⟩ := by
  obtain ⟨found, hfound, h⟩ := exists_of_bind_ok h
  rcases found with _ | c
  · cases h
  simp only at h
  split at h
  · next opening rest hchildren =>
    split at h
    · next closing hlast =>
      obtain ⟨point, hpoint, h⟩ := exists_of_bind_ok h
      obtain ⟨⟨left, right⟩, hhalves, h⟩ := exists_of_bind_ok h
      obtain ⟨before, hbefore, h⟩ := exists_of_bind_ok h
      obtain ⟨after, hafter, h⟩ := exists_of_bind_ok h
      refine ⟨c, opening, rest.dropLast, closing, point, left, right, before, after, hfound, ?_,
        hpoint, hhalves, hbefore, hafter, ?_⟩
      · rw [hchildren, List.dropLast_append_getLast? closing hlast]
      · exact (Option.some.inj (Except.ok.inj h)).symm
    · cases h
  · cases h

theorem barf_eq_some (h : doc.barf tables p = .ok (some r)) :
    ∃ scope front element delimiter gap moved excluded,
      doc.scopeAt tables.scopes p = .ok (some scope) ∧
      scope.node.children = front ++ [element, delimiter] ∧ front ≠ [] ∧
      doc.text.slice element.stop delimiter.start = .ok gap ∧
      doc.textOf delimiter = .ok moved ∧ doc.textOf element = .ok excluded ∧
      r = { start := doc.startPoint element, stop := doc.endPoint delimiter,
            content := moved ++ gap ++ excluded } := by
  obtain ⟨found, hfound, h⟩ := exists_of_bind_ok h
  rcases found with _ | scope
  · cases h
  simp only at h
  split at h
  · next delimiter element first front hchildren =>
    obtain ⟨gap, hgap, h⟩ := exists_of_bind_ok h
    obtain ⟨moved, hmoved, h⟩ := exists_of_bind_ok h
    obtain ⟨excluded, hexcluded, h⟩ := exists_of_bind_ok h
    refine ⟨scope, (first :: front).reverse, element, delimiter, gap, moved, excluded, hfound,
      ?_, by simp, hgap, hmoved, hexcluded, ?_⟩
    · rw [← List.reverse_reverse scope.node.children, hchildren]
      simp
    · exact (Option.some.inj (Except.ok.inj h)).symm
  · cases h

theorem firstAccepting_eq_some_iff {unit : Text} {cs : List Cursor} {target : Cursor} :
    doc.firstAccepting parser unit cs = .ok (some target) ↔
      ∃ nearer farther, cs = nearer ++ target :: farther ∧
        (∀ a ∈ nearer,
          parser.acceptsReplacement doc.text a.node.start a.node.stop unit = .ok false) ∧
        parser.acceptsReplacement doc.text target.node.start target.node.stop unit =
          .ok true := by
  constructor
  · intro h
    induction cs with
    | nil => cases h
    | cons c cs ih =>
      obtain ⟨accepted, haccepted, h⟩ := exists_of_bind_ok h
      cases accepted with
      | true =>
        cases h
        exact ⟨[], cs, rfl, fun a ha => absurd ha List.not_mem_nil, haccepted⟩
      | false =>
        obtain ⟨nearer, farther, rfl, hnearer, htarget⟩ := ih h
        exact ⟨c :: nearer, farther, rfl, List.forall_mem_cons.mpr ⟨haccepted, hnearer⟩,
          htarget⟩
  · rintro ⟨nearer, farther, rfl, hnearer, htarget⟩
    induction nearer with
    | nil =>
      rw [List.nil_append, firstAccepting, htarget]
      rfl
    | cons c nearer ih =>
      obtain ⟨hc, hnearer⟩ := List.forall_mem_cons.mp hnearer
      rw [List.cons_append, firstAccepting, hc]
      exact ih hnearer

/-- The unit at the point can take the place of `target`, and of no nearer ancestor. -/
structure Raises (doc : Document) (parser : Parser) (tables : Tables) (p : Point)
    (c target : Cursor) (unit : Text) : Prop where
  found : doc.enclosingAt tables.units p = .ok (some c)
  text : doc.textOf c.node = .ok unit
  nearest : ∃ nearer farther, c.ancestors = nearer ++ target :: farther ∧
    ∀ a ∈ nearer, parser.acceptsReplacement doc.text a.node.start a.node.stop unit = .ok false
  accepted :
    parser.acceptsReplacement doc.text target.node.start target.node.stop unit = .ok true

theorem raise_eq_some_iff : doc.raise parser tables p = .ok (some r) ↔
    ∃ c target unit, doc.Raises parser tables p c target unit ∧
      r = doc.raiseOver target.node c.node unit := by
  constructor
  · intro h
    obtain ⟨found, hfound, h⟩ := exists_of_bind_ok h
    rcases found with _ | c
    · cases h
    obtain ⟨unit, hunit, h⟩ := exists_of_bind_ok h
    obtain ⟨first, hfirst, h⟩ := exists_of_bind_ok h
    rcases first with _ | target
    · cases h
    obtain ⟨nearer, farther, hancestors, hnearer, htarget⟩ :=
      firstAccepting_eq_some_iff.mp hfirst
    exact ⟨c, target, unit, ⟨liftM_eq_ok_iff.mp hfound, liftM_eq_ok_iff.mp hunit,
      ⟨nearer, farther, hancestors, hnearer⟩, htarget⟩,
      (Option.some.inj (Except.ok.inj h)).symm⟩
  · rintro ⟨c, target, unit, ⟨hfound, hunit, ⟨nearer, farther, hancestors, hnearer⟩, htarget⟩,
      rfl⟩
    have hfirst := firstAccepting_eq_some_iff.mpr
      ⟨nearer, farther, hancestors, hnearer, htarget⟩
    rw [raise, liftM_eq_ok_iff.mpr hfound, ok_bind]
    simp only [liftM_eq_ok_iff.mpr hunit, ok_bind, hfirst]
    rfl

theorem Raises.target_within {c target : Cursor} {unit : Text}
    (h : doc.Raises parser tables p c target unit) : Cursor.Within doc.tree target := by
  obtain ⟨nearer, farther, hancestors, _⟩ := h.nearest
  apply (enclosingAt_within h.found).ancestors
  rw [hancestors]
  simp

/-- The bytes that a command is about. -/
inductive Region (doc : Document) (parser : Parser) (tables : Tables) (p : Point) :
    Operation → Span → Prop where
  | split {c : Cursor} (found : doc.enclosingAt tables.splittable p = .ok (some c)) :
    Region doc parser tables p .splitExpr c.node.span
  | barf {scope : Cursor} {front : List Tree} {element delimiter : Tree}
    (found : doc.scopeAt tables.scopes p = .ok (some scope))
    (children : scope.node.children = front ++ [element, delimiter]) :
    Region doc parser tables p .barfForward ⟨element.start, delimiter.stop⟩
  | raise {c target : Cursor} {unit : Text}
      (raises : doc.Raises parser tables p c target unit) :
    Region doc parser tables p .raiseExpr target.node.span

theorem WellFormed.replaces_node {t : Tree} (hw : doc.WellFormed) (ht : t.Fits doc.text)
    (hstart : r.start = doc.startPoint t) (hstop : r.stop = doc.endPoint t) :
    r.Replaces doc.text t.span :=
  Replacement.replaces_of_boundaries ht.start_boundary ht.stop_boundary ht.start_le_stop
    hw.addressable hstart hstop

/-- Every edit lands on the bytes that its command is about. -/
theorem operate_replaces_region {command : Operation} (hw : doc.WellFormed)
    (h : doc.operate parser tables command p = .ok (some r)) :
    ∃ span, doc.Region parser tables p command span ∧ r.Replaces doc.text span := by
  cases command with
  | splitExpr =>
    obtain ⟨c, _, _, _, _, _, _, _, _, hfound, _, _, _, _, _, rfl⟩ :=
      split_eq_some (liftM_eq_ok_iff.mp h)
    have hfits := (enclosingAt_within hfound).fits hw.tree
    exact ⟨_, .split hfound, hw.replaces_node hfits rfl rfl⟩
  | barfForward =>
    obtain ⟨scope, front, element, delimiter, _, _, _, hfound, hchildren, _, _, _, _, rfl⟩ :=
      barf_eq_some (liftM_eq_ok_iff.mp h)
    have hscope := enclosingAt_within hfound
    have hmem : element ∈ scope.node.children ∧ delimiter ∈ scope.node.children := by
      rw [hchildren]
      simp
    have helement := hscope.child_fits hw.tree hmem.1
    have hdelimiter := hscope.child_fits hw.tree hmem.2
    have hgap : element.stop ≤ delimiter.start := by
      have hordered := (hscope.fits hw.tree).ordered
      rw [hchildren] at hordered
      exact List.rel_of_pairwise_cons (List.pairwise_append.mp hordered).2.1 List.mem_cons_self
    have hle : element.start ≤ delimiter.stop :=
      helement.start_le_stop.trans (hgap.trans hdelimiter.start_le_stop)
    exact ⟨_, .barf hfound hchildren, Replacement.replaces_of_boundaries helement.start_boundary
      hdelimiter.stop_boundary hle hw.addressable rfl rfl⟩
  | raiseExpr =>
    obtain ⟨c, target, unit, hraises, rfl⟩ := raise_eq_some_iff.mp h
    have hfits := hraises.target_within.fits hw.tree
    exact ⟨_, .raise hraises, hw.replaces_node hfits rfl rfl⟩

theorem barf_replaces_over_lines :
    let doc : Document := {
      text := ['[', 'é', ',', ' ', '😀', '\n', ' ', ']']
      tree := .node "program" ⟨0, 12⟩ false [.node "array" ⟨0, 12⟩ false [
        .node "[" ⟨0, 1⟩ false [], .node "identifier" ⟨1, 3⟩ false [],
        .node "," ⟨3, 4⟩ false [], .node "identifier" ⟨5, 9⟩ false [],
        .node "]" ⟨11, 12⟩ false []]] }
    let parser : Parser := fun _ => none
    let tables : Tables := { scopes := ["array"] }
    let r : Replacement := ⟨⟨0, 4⟩, ⟨1, 2⟩, [']', '\n', ' ', '😀'], none⟩
    doc.WellFormed ∧ doc.operate parser tables .barfForward ⟨0, 1⟩ = .ok (some r) ∧
      ∃ span, doc.Region parser tables ⟨0, 1⟩ .barfForward span ∧ r.Replaces doc.text span :=
  ⟨by decide, rfl, operate_replaces_region (by decide) rfl⟩

end Document

end StructEdit
