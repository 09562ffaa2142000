import StructEdit.Proofs.Scope

namespace StructEdit

namespace Cursor

variable {kinds : List String} {a c : Cursor}

theorem enclosing?_eq_none_iff :
    c.enclosing? kinds = none ↔ ∀ a ∈ c.lineage, a.hasKind kinds = false := by
  change c.lineage.find? (hasKind kinds) = none ↔ _
  rw [List.find?_eq_none]
  constructor
  · intro hnone a ha
    exact Bool.eq_false_iff.mpr (hnone a ha)
  · intro hnone a ha
    exact Bool.eq_false_iff.mp (hnone a ha)

theorem enclosing?_eq_some_iff :
    c.enclosing? kinds = some a ↔ a ∈ c.lineage ∧ a.hasKind kinds ∧
      ∀ b ∈ c.lineage, b ≠ a → b.hasKind kinds → b ∈ a.ancestors := by
  constructor
  · intro h
    obtain ⟨ha, nearer, farther, hlineage, hnearer⟩ := List.find?_eq_some_iff_append.mp h
    change c.lineage = _ at hlineage
    refine ⟨List.mem_of_find?_eq_some h, ha, ?_⟩
    intro b hb hne hkind
    rw [hlineage, List.mem_append, List.mem_cons] at hb
    rcases hb with hb | rfl | hb
    · have hnot := hnearer b hb
      rw [hkind] at hnot
      cases hnot
    · exact absurd rfl hne
    · rw [lineage_eq_append hlineage]
      exact hb
  · intro ⟨hmem, ha, hothers⟩
    obtain ⟨nearer, farther, hlineage⟩ := List.append_of_mem hmem
    have hup : c.lineage = nearer ++ a.lineage := by
      rw [hlineage, lineage, lineage_eq_append hlineage]
    refine enclosing?_of_lineage hup ?_ ha
    intro b hb
    by_contra hkind
    obtain ⟨before, between, rfl⟩ := List.append_of_mem hb
    have hancestors : b.ancestors = between ++ a :: farther := by
      rw [List.append_assoc, List.cons_append] at hlineage
      exact lineage_eq_append hlineage
    have hlt : a.trail.length < b.trail.length := by
      apply length_trail_lt
      rw [hancestors]
      exact List.mem_append_right between List.mem_cons_self
    have hne : b ≠ a := by
      rintro rfl
      exact Nat.lt_irrefl _ hlt
    have hback := hothers b (by rw [hup]; exact List.mem_append_left _ hb) hne
      (by simpa using hkind)
    exact Nat.lt_asymm hlt (length_trail_lt hback)

end Cursor

namespace Document

variable {doc : Document} {p : Point} {q : BytePoint} {kinds : List String} {c c₀ : Cursor}

theorem enclosingAt_eq (h : doc.nodeAt p = .ok c₀) :
    doc.enclosingAt kinds p = .ok (c₀.enclosing? kinds) := by
  rw [enclosingAt, h]
  rfl

theorem enclosingAt_eq_none_iff (h : doc.nodeAt p = .ok c₀) :
    doc.enclosingAt kinds p = .ok none ↔ ∀ a ∈ c₀.lineage, a.hasKind kinds = false := by
  rw [enclosingAt_eq h, Except.ok.injEq, Cursor.enclosing?_eq_none_iff]

theorem enclosingAt_eq_some {nearer farther : List Cursor} (h : doc.nodeAt p = .ok c₀)
    (hlineage : c₀.lineage = nearer ++ c :: farther)
    (hnearer : ∀ a ∈ nearer, a.hasKind kinds = false) (hc : c.hasKind kinds) :
    doc.enclosingAt kinds p = .ok (some c) := by
  rw [enclosingAt_eq h, Cursor.enclosing?_of_lineage _ hnearer hc]
  rw [hlineage, Cursor.lineage, Cursor.lineage_eq_append hlineage]

/-- What is found at a point is the innermost node of the kinds around it. -/
theorem enclosingAt_finds_innermost (hw : doc.tree.WellFormed doc.text)
    (hq : doc.text.toBytePoint p = .ok q) (hrow : q.row < Tree.lookupLimit)
    (hcolumn : q.column < Tree.lookupLimit)
    (hempty : ∀ t ∈ doc.tree.preorder, ¬t.IsEmptyAt doc.text q) :
    (∀ c : Cursor, doc.enclosingAt kinds p = .ok (some c) ↔
      Cursor.Within doc.tree c ∧ c.hasKind kinds = true ∧
      (c = doc.root ∨ c.node.Holds doc.text q) ∧
        ∀ d : Cursor, Cursor.Within doc.tree d → d ≠ c → d.hasKind kinds = true →
          d.node.Holds doc.text q → d ∈ c.ancestors) ∧
    (doc.enclosingAt kinds p = .ok none ↔ doc.root.hasKind kinds = false ∧
      ∀ d : Cursor, Cursor.Within doc.tree d → d.node.Holds doc.text q →
        d.hasKind kinds = false) ∧
    doc.scopeAt kinds p = doc.enclosingAt kinds p := by
  have hat : doc.nodeAt p = .ok (Tree.descend doc.text q doc.tree []) := by
    rw [nodeAt_eq hq, Tree.deepestAt_eq_descend hrow hcolumn]
  have hfound : Cursor.Within doc.tree (Tree.descend doc.text q doc.tree []) :=
    Tree.descend_within doc.tree [] .root
  have hmem {c : Cursor} (h : Cursor.Within doc.tree c) :=
    Tree.mem_lineage_descend_iff hw h fun z hz => hempty z.node hz.mem_preorder
  refine ⟨?_, ?_, rfl⟩
  · intro c
    rw [enclosingAt_eq hat, Except.ok.injEq, Cursor.enclosing?_eq_some_iff]
    constructor
    · intro ⟨hlineage, hkind, hothers⟩
      have hc := hfound.lineage c hlineage
      refine ⟨hc, hkind, (hmem hc).mp hlineage, ?_⟩
      intro d hd hne hdkind hholds
      exact hothers d ((hmem hd).mpr (.inr hholds)) hne hdkind
    · intro ⟨hc, hkind, hplace, hothers⟩
      refine ⟨(hmem hc).mpr hplace, hkind, ?_⟩
      intro d hlineage hne hdkind
      have hd := hfound.lineage d hlineage
      rcases (hmem hd).mp hlineage with rfl | hholds
      · rcases List.mem_cons.mp hc.root_mem_lineage with heq | hup
        · exact absurd heq hne
        · exact hup
      · exact hothers d hd hne hdkind hholds
  · rw [enclosingAt_eq_none_iff hat]
    constructor
    · intro hnone
      refine ⟨hnone _ hfound.root_mem_lineage, ?_⟩
      intro d hd hholds
      exact hnone d ((hmem hd).mpr (.inr hholds))
    · intro ⟨hroot, hnone⟩ a ha
      rcases (hmem (hfound.lineage a ha)).mp ha with rfl | hholds
      · exact hroot
      · exact hnone a (hfound.lineage a ha) hholds

theorem enclosingAt_finds_middle_list :
    let outer : Cursor := ⟨outerList, [⟨nestedLists.tree, 0⟩]⟩
    let middle : Cursor := ⟨middleList, [⟨outerList, 3⟩, ⟨nestedLists.tree, 0⟩]⟩
    let q : BytePoint := ⟨1, 8⟩
    nestedLists.tree.WellFormed nestedLists.text ∧
      nestedLists.text.toBytePoint ⟨1, 6⟩ = .ok q ∧
      q.row < Tree.lookupLimit ∧ q.column < Tree.lookupLimit ∧
      (∀ t ∈ nestedLists.tree.preorder, ¬t.IsEmptyAt nestedLists.text q) ∧
      nestedLists.enclosingAt ["array"] ⟨1, 6⟩ = .ok (some middle) ∧
      outer.node.Holds nestedLists.text q ∧ outer ∈ middle.ancestors ∧
      nestedLists.enclosingAt ["object"] ⟨1, 6⟩ = .ok none := by
  intro outer middle q
  have hw : nestedLists.tree.WellFormed nestedLists.text := by decide
  have hempty : ∀ t ∈ nestedLists.tree.preorder, ¬t.IsEmptyAt nestedLists.text q := by decide
  have hinnermost (kinds : List String) :=
    @enclosingAt_finds_innermost nestedLists ⟨1, 6⟩ q kinds hw rfl (by decide) (by decide)
      hempty
  have hfound : nestedLists.enclosingAt ["array"] ⟨1, 6⟩ = .ok (some middle) := by decide
  have houter : Cursor.Within nestedLists.tree outer := .child .root rfl
  have hholds : outer.node.Holds nestedLists.text q := by decide
  have hup := (((hinnermost ["array"]).1 middle).mp hfound).2.2.2 outer houter (by decide)
    (by decide) hholds
  have hkinds : ∀ d ∈ nestedLists.tree.cursors, d.hasKind ["object"] = false := by decide
  have hnone := (hinnermost ["object"]).2.1.mpr
    ⟨by decide, fun d hd _ => hkinds d (Tree.mem_cursors_of_within hd)⟩
  exact ⟨hw, rfl, by decide, by decide, hempty, hfound, hholds, hup, hnone⟩

end Document

end StructEdit
