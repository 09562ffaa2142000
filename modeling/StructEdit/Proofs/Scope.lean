import StructEdit.Proofs.Document
import StructEdit.Proofs.Tree.Descent
import StructEdit.Proofs.Tree.Preorder
import StructEdit.Scope

namespace StructEdit

/-- Scopes can be told by their starts. -/
structure Tree.ScopesApart (kinds : List String) (root : Tree) : Prop where
  nonempty : ∀ c ∈ root.cursors, c.hasKind kinds → c.node.start ≠ c.node.stop
  unshadowed : ∀ c ∈ root.cursors, c.hasKind kinds → ∀ z ∈ root.cursors,
    z.node.start = c.node.start → z.node.stop = c.node.start → c ∈ z.lineage
  staggered : ∀ c ∈ root.cursors, c.hasKind kinds → ∀ d ∈ root.cursors, d.hasKind kinds →
    c ∈ d.ancestors → c.node.start ≠ d.node.start

instance (kinds : List String) (root : Tree) : Decidable (root.ScopesApart kinds) :=
  decidable_of_iff
    ((∀ c ∈ root.cursors, c.hasKind kinds → c.node.start ≠ c.node.stop) ∧
      (∀ c ∈ root.cursors, c.hasKind kinds → ∀ z ∈ root.cursors,
        z.node.start = c.node.start → z.node.stop = c.node.start → c ∈ z.lineage) ∧
      (∀ c ∈ root.cursors, c.hasKind kinds → ∀ d ∈ root.cursors, d.hasKind kinds →
        c ∈ d.ancestors → c.node.start ≠ d.node.start))
    ⟨fun ⟨h₁, h₂, h₃⟩ => ⟨h₁, h₂, h₃⟩, fun ⟨h₁, h₂, h₃⟩ => ⟨h₁, h₂, h₃⟩⟩

/-- The text is short enough for lookups, and its scopes can be told by their starts. -/
structure Document.Navigable (doc : Document) (kinds : List String) : Prop where
  tree : doc.tree.WellFormed doc.text
  short : doc.text.size .utf8 < Tree.lookupLimit
  apart : doc.tree.ScopesApart kinds

instance (doc : Document) (kinds : List String) : Decidable (doc.Navigable kinds) :=
  decidable_of_iff (doc.tree.WellFormed doc.text ∧ doc.text.size .utf8 < Tree.lookupLimit ∧
      doc.tree.ScopesApart kinds)
    ⟨fun ⟨h₁, h₂, h₃⟩ => ⟨h₁, h₂, h₃⟩, fun ⟨h₁, h₂, h₃⟩ => ⟨h₁, h₂, h₃⟩⟩

/-- A move made so many times, as long as it leads somewhere. -/
def moveTimes (move : Point → Checked (Option Point)) : Nat → Point → Checked (Option Point)
  | 0, p => .ok (some p)
  | n + 1, p => do
    match ← move p with
    | some q => moveTimes move n q
    | none => return none

section Moves

variable {move : Point → Checked (Option Point)} {n : Nat} {p q : Point}

theorem moveTimes_succ_of_some (h : move p = .ok (some q)) :
    moveTimes move (n + 1) p = moveTimes move n q := by
  rw [moveTimes, h]
  rfl

theorem moveTimes_succ_of_none (h : move p = .ok none) :
    moveTimes move (n + 1) p = .ok none := by
  rw [moveTimes, h]
  rfl

theorem moveTimes_succ_eq_some (h : moveTimes move (n + 1) p = .ok (some q)) :
    ∃ r, move p = .ok (some r) ∧ moveTimes move n r = .ok (some q) := by
  obtain ⟨next, hnext, h⟩ := exists_of_bind_ok h
  cases next with
  | none => cases h
  | some r => exact ⟨r, hnext, h⟩

theorem moveTimes_succ_eq {r : Option Point} (h : moveTimes move n p = .ok (some q))
    (hmove : move q = .ok r) : moveTimes move (n + 1) p = .ok r := by
  induction n generalizing p with
  | zero =>
    cases h
    cases r with
    | none => exact moveTimes_succ_of_none hmove
    | some r => exact moveTimes_succ_of_some hmove
  | succ n ih =>
    obtain ⟨s, hs, h⟩ := moveTimes_succ_eq_some h
    rw [moveTimes_succ_of_some hs]
    exact ih h

end Moves

namespace Document

variable {doc : Document} {kinds : List String} {p q : Point} {c d : Cursor}

theorem scopeAt_hasKind (h : doc.scopeAt kinds p = .ok (some c)) : c.hasKind kinds := by
  obtain ⟨node, _, h⟩ := exists_of_bind_ok h
  exact List.find?_some (Except.ok.inj h)

theorem scopeOut_eq (h : doc.scopeAt kinds p = .ok (some c)) :
    doc.scopeOut kinds p = .ok ((c.outer kinds).head?.map fun a => doc.startPoint a.node) := by
  rw [← Cursor.find?_ancestors_eq_head?_outer, ← Cursor.parent?_bind_enclosing?, scopeOut, h]
  rfl

theorem scopeInto_eq_some (h : doc.scopeInto kinds p = .ok (some q)) :
    ∃ c d, doc.scopeAt kinds p = .ok (some c) ∧ c.nested? kinds = some d ∧
      q = doc.startPoint d.node := by
  obtain ⟨scope, hscope, h⟩ := exists_of_bind_ok h
  cases scope with
  | none => cases h
  | some c =>
    obtain ⟨d, hd, hq⟩ := Option.map_eq_some_iff.mp (Except.ok.inj h)
    exact ⟨c, d, hscope, hd, hq.symm⟩

theorem scopeStart_eq (h : doc.scopeAt kinds p = .ok (some c)) :
    doc.scopeStart kinds p = .ok (some (doc.startPoint c.node)) := by
  rw [scopeStart, h]
  rfl

theorem scopeStart_of_none {scope : Option Cursor} (h : doc.scopeAt kinds p = .ok none)
    (hleft : doc.scopeAt kinds p.stepLeft = .ok scope) :
    doc.scopeStart kinds p = .ok (scope.map fun scope => doc.startPoint scope.node) := by
  rw [scopeStart, h, ok_bind, hleft]
  rfl

theorem nodeAt_of_isPrefix {s : Text} (hsize : doc.text.size .utf8 < Tree.lookupLimit)
    (hs : s <+: doc.text) :
    doc.nodeAt s.endPoint =
      .ok (Tree.descend doc.text (doc.text.bytePointAt (s.size .utf8)) doc.tree []) := by
  have hlimit : doc.text.size .utf8 < addressLimit := hsize.trans (by decide)
  have hq : doc.text.toBytePoint s.endPoint = .ok (doc.text.bytePointAt (s.size .utf8)) := by
    obtain ⟨r, hr⟩ := hs
    rw [← hr] at hlimit ⊢
    rw [Text.toBytePoint_append s r hlimit, Text.bytePointAt_append]
  rw [nodeAt_eq hq, Tree.deepestAt_bytePointAt hsize]

theorem nodeAt_startPoint {t : Tree} (hsize : doc.text.size .utf8 < Tree.lookupLimit)
    (ht : t.Fits doc.text) :
    doc.nodeAt (doc.startPoint t) =
      .ok (Tree.descend doc.text (doc.text.bytePointAt t.start) doc.tree []) := by
  obtain ⟨s, r, htext, hs⟩ := ht.start_boundary.exists_append
  rw [startPoint_eq htext hs, nodeAt_of_isPrefix hsize ⟨r, htext.symm⟩, hs]

/-- At the start of a scope that scope is found. -/
theorem scopeAt_startPoint (hn : doc.Navigable kinds)
    (h : Cursor.Within doc.tree c) (hc : c.hasKind kinds) :
    doc.scopeAt kinds (doc.startPoint c.node) = .ok (some c) := by
  have hfits := h.fits hn.tree
  have hmem := Tree.mem_cursors_of_within h
  have hlt : c.node.start < c.node.stop :=
    lt_of_le_of_ne hfits.start_le_stop (hn.apart.nonempty c hmem hc)
  have hholds : c.node.Holds doc.text (doc.text.bytePointAt c.node.start) :=
    ⟨le_refl _, hfits.start_boundary.bytePointAt_lt hfits.stop_boundary hlt⟩
  have hempty : ∀ z, Cursor.Within doc.tree z →
      z.node.IsEmptyAt doc.text (doc.text.bytePointAt c.node.start) → c ∈ z.lineage := by
    intro z hz ⟨hzstart, hzstop⟩
    have hzfits := hz.fits hn.tree
    exact hn.apart.unshadowed c hmem hc z (Tree.mem_cursors_of_within hz)
      (hzfits.start_boundary.eq_of_bytePointAt_eq hfits.start_boundary hzstart)
      (hzfits.stop_boundary.eq_of_bytePointAt_eq hfits.start_boundary hzstop)
  have hdescend := Tree.descend_eq_of_within hn.tree h hholds hempty
  have hwithin : Cursor.Within doc.tree
      (Tree.descend doc.text (doc.text.bytePointAt c.node.start) c.node c.trail) :=
    Tree.descend_within c.node c.trail h
  obtain ⟨between, hlineage, hbetween⟩ :=
    @Tree.descend_lineage doc.text (doc.text.bytePointAt c.node.start) c.node c.trail
  -- a node below the scope that the search enters starts with it, so it is no scope
  have hkinds : ∀ b ∈ between, b.hasKind kinds = false := by
    intro b hb
    have hb' := hwithin.lineage b (hlineage ▸ List.mem_append_left _ hb)
    have hup : c ∈ b.ancestors := by
      obtain ⟨nearer, farther, rfl⟩ := List.append_of_mem hb
      rw [List.append_assoc, List.cons_append] at hlineage
      rw [Cursor.lineage_eq_append hlineage]
      exact List.mem_append_right _ c.self_mem_lineage
    have hle : b.node.start ≤ c.node.start := by
      have hentered := (hbetween b hb).2
      rw [← not_lt, hfits.start_boundary.bytePointAt_lt_iff (hb'.fits hn.tree).start_boundary]
        at hentered
      exact not_lt.mp hentered
    by_contra hkind
    exact hn.apart.staggered c hmem hc b (Tree.mem_cursors_of_within hb')
      (by simpa using hkind) hup
      (le_antisymm (hb'.span_le hn.tree c hup).1 hle)
  rw [scopeAt, enclosingAt, nodeAt_startPoint hn.short hfits, hdescend, ok_bind,
    Cursor.enclosing?_of_lineage hlineage hkinds hc]
  rfl

theorem scopeOut_scopeInto (hn : doc.Navigable kinds)
    (h : doc.scopeInto kinds p = .ok (some q)) :
    ∃ c d, doc.scopeAt kinds p = .ok (some c) ∧ doc.scopeAt kinds q = .ok (some d) ∧
      q = doc.startPoint d.node ∧
      doc.scopeOut kinds q = .ok (some (doc.startPoint c.node)) := by
  obtain ⟨c, d, hc, hd, rfl⟩ := scopeInto_eq_some h
  obtain ⟨hwithin, hkind, between, hancestors, hbetween⟩ :=
    Cursor.nested?_eq_some (enclosingAt_within hc) hd
  have hscope := scopeAt_startPoint hn hwithin hkind
  have hhead : (d.outer kinds).head? = some c := by
    rw [← Cursor.find?_ancestors_eq_head?_outer, hancestors,
      Cursor.find?_append_lineage hbetween (scopeAt_hasKind hc)]
  refine ⟨c, d, hc, hscope, rfl, ?_⟩
  rw [scopeOut_eq hscope, hhead]
  rfl

/-- As many moves outwards as inwards lead back to the scope of the first point. -/
theorem scopeOut_undoes_scopeInto {k : Nat} (hn : doc.Navigable kinds) (hk : 1 ≤ k)
    (h : moveTimes (doc.scopeInto kinds) k p = .ok (some q)) :
    ∃ c, doc.scopeAt kinds p = .ok (some c) ∧
      moveTimes (doc.scopeOut kinds) k q = .ok (some (doc.startPoint c.node)) ∧
      doc.scopeStart kinds p = .ok (some (doc.startPoint c.node)) := by
  induction k, hk using Nat.le_induction generalizing p with
  | base =>
    obtain ⟨r, hr, h⟩ := moveTimes_succ_eq_some h
    cases h
    obtain ⟨c, d, hc, _, _, hout⟩ := scopeOut_scopeInto hn hr
    exact ⟨c, hc, moveTimes_succ_of_some hout, scopeStart_eq hc⟩
  | succ k _ ih =>
    obtain ⟨r, hr, h⟩ := moveTimes_succ_eq_some h
    obtain ⟨c, d, hc, hd, hrd, hout⟩ := scopeOut_scopeInto hn hr
    obtain ⟨d', hd', hback, _⟩ := ih h
    rw [hd] at hd'
    cases hd'
    rw [← hrd] at hback
    exact ⟨c, hc, moveTimes_succ_eq hback hout, scopeStart_eq hc⟩

def innerList : Tree :=
  .node "array" ⟨11, 13⟩ false [.node "[" ⟨11, 12⟩ false [], .node "]" ⟨12, 13⟩ false []]

def middleList : Tree :=
  .node "array" ⟨5, 14⟩ false [
    .node "identifier" ⟨5, 5⟩ true [], .node "[" ⟨5, 6⟩ false [],
    .node "identifier" ⟨6, 10⟩ false [], .node "," ⟨10, 11⟩ false [], innerList,
    .node "]" ⟨13, 14⟩ false []]

def outerList : Tree :=
  .node "array" ⟨0, 15⟩ false [
    .node "[" ⟨0, 1⟩ false [], .node "identifier" ⟨1, 3⟩ false [], .node "," ⟨3, 4⟩ false [],
    middleList, .node "]" ⟨14, 15⟩ false []]

/-- Three lists, one in the other, over two lines. -/
def nestedLists : Document where
  text := ['[', 'é', ',', '\n', '[', '😀', ',', '[', ']', ']', ']']
  tree := .node "program" ⟨0, 15⟩ false [outerList]

theorem scopeOut_undoes_two_moves :
    nestedLists.Navigable ["array"] ∧ 1 ≤ 2 ∧
      moveTimes (nestedLists.scopeInto ["array"]) 2 ⟨0, 1⟩ = .ok (some ⟨1, 4⟩) ∧
      ∃ c, nestedLists.scopeAt ["array"] ⟨0, 1⟩ = .ok (some c) ∧
        moveTimes (nestedLists.scopeOut ["array"]) 2 ⟨1, 4⟩ =
          .ok (some (nestedLists.startPoint c.node)) ∧
        nestedLists.scopeStart ["array"] ⟨0, 1⟩ =
          .ok (some (nestedLists.startPoint c.node)) := by
  have hn : nestedLists.Navigable ["array"] := by decide
  have hinto : moveTimes (nestedLists.scopeInto ["array"]) 2 ⟨0, 1⟩ =
      .ok (some ⟨1, 4⟩) := by decide
  exact ⟨hn, by decide, hinto, scopeOut_undoes_scopeInto hn (by decide) hinto⟩

theorem moveTimes_scopeOut (hn : doc.Navigable kinds) (h : doc.scopeAt kinds p = .ok (some c))
    (i : Nat) :
    moveTimes (doc.scopeOut kinds) (i + 1) p =
      .ok ((c.outer kinds)[i]?.map fun a => doc.startPoint a.node) := by
  induction i generalizing p c with
  | zero =>
    rw [← List.head?_eq_getElem?]
    exact moveTimes_succ_eq rfl (scopeOut_eq h)
  | succ i ih =>
    have hout := scopeOut_eq h
    cases hhead : c.ancestors.find? (Cursor.hasKind kinds) with
    | none =>
      have hnil : c.outer kinds = [] :=
        List.filter_eq_nil_iff.mpr (List.find?_eq_none.mp hhead)
      rw [hnil] at hout ⊢
      exact moveTimes_succ_of_none hout
    | some a =>
      have ha : Cursor.Within doc.tree a :=
        (enclosingAt_within h).ancestors a (List.mem_of_find?_eq_some hhead)
      rw [Cursor.outer_eq_cons hhead] at hout ⊢
      rw [moveTimes_succ_of_some hout, List.getElem?_cons_succ]
      exact ih (scopeAt_startPoint hn ha (List.find?_some hhead))

theorem startPoint_lt {t u : Tree} (ht : t.Fits doc.text) (hu : u.Fits doc.text)
    (h : t.start < u.start) : doc.startPoint t < doc.startPoint u := by
  obtain ⟨s, r, htext, hs⟩ := ht.start_boundary.exists_append
  obtain ⟨s', r', htext', hs'⟩ := hu.start_boundary.exists_append
  rw [startPoint_eq htext hs, startPoint_eq htext' hs', ← Text.endLocation_utf16,
    ← Text.endLocation_utf16]
  refine Text.endLocation_lt_of_size_lt (e := .utf8) .utf16 ⟨r, htext.symm⟩ ⟨r', htext'.symm⟩ ?_
  rw [hs, hs']
  exact h

theorem pairwise_outer (hn : doc.Navigable kinds) (h : Cursor.Within doc.tree c) :
    (c.outer kinds).Pairwise fun a b => doc.startPoint b.node < doc.startPoint a.node := by
  have hancestors := c.pairwise_ancestors.filter (Cursor.hasKind kinds)
  refine List.Pairwise.imp_of_mem ?_ hancestors
  intro a b ha hb hab
  obtain ⟨ha, hakind⟩ := List.mem_filter.mp ha
  obtain ⟨hb, hbkind⟩ := List.mem_filter.mp hb
  have ha' := h.ancestors a ha
  have hb' := h.ancestors b hb
  have hne := hn.apart.staggered b (Tree.mem_cursors_of_within hb') hbkind a
    (Tree.mem_cursors_of_within ha') hakind hab
  exact startPoint_lt (hb'.fits hn.tree) (ha'.fits hn.tree)
    (lt_of_le_of_ne (ha'.span_le hn.tree b hab).1 hne)

/-- Moving outwards visits the starts of all outer scopes, from the inside out. -/
theorem scopeOut_visits_outer_scopes (hn : doc.Navigable kinds)
    (h : doc.scopeAt kinds p = .ok (some c)) :
    (∀ (i : Nat) (hi : i < (c.outer kinds).length),
      moveTimes (doc.scopeOut kinds) (i + 1) p =
        .ok (some (doc.startPoint ((c.outer kinds).get ⟨i, hi⟩).node))) ∧
    ((c.outer kinds).Pairwise fun a b => doc.startPoint b.node < doc.startPoint a.node) ∧
    moveTimes (doc.scopeOut kinds) ((c.outer kinds).length + 1) p = .ok none := by
  refine ⟨?_, pairwise_outer hn (enclosingAt_within h), ?_⟩
  · intro i hi
    rw [moveTimes_scopeOut hn h, List.getElem?_eq_getElem hi]
    rfl
  · rw [moveTimes_scopeOut hn h, List.getElem?_eq_none (Nat.le_refl _)]
    rfl

theorem scopeOut_leaves_inner_list :
    let c : Cursor :=
      ⟨innerList, [⟨middleList, 4⟩, ⟨outerList, 3⟩, ⟨nestedLists.tree, 0⟩]⟩
    nestedLists.Navigable ["array"] ∧ nestedLists.scopeAt ["array"] ⟨1, 5⟩ = .ok (some c) ∧
      moveTimes (nestedLists.scopeOut ["array"]) 1 ⟨1, 5⟩ = .ok (some ⟨1, 0⟩) ∧
      moveTimes (nestedLists.scopeOut ["array"]) 2 ⟨1, 5⟩ = .ok (some ⟨0, 0⟩) ∧
      (⟨0, 0⟩ : Point) < ⟨1, 0⟩ ∧
      moveTimes (nestedLists.scopeOut ["array"]) 3 ⟨1, 5⟩ = .ok none := by
  intro c
  have hn : nestedLists.Navigable ["array"] := by decide
  have hc : nestedLists.scopeAt ["array"] ⟨1, 5⟩ = .ok (some c) := by decide
  obtain ⟨hvisits, horder, hend⟩ := scopeOut_visits_outer_scopes hn hc
  have hlt : (⟨0, 0⟩ : Point) < ⟨1, 0⟩ := List.rel_of_pairwise_cons horder List.mem_cons_self
  exact ⟨hn, hc, hvisits 0 (by decide), hvisits 1 (by decide), hlt, hend⟩

end Document

end StructEdit
