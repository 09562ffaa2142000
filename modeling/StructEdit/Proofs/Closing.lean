import StructEdit.Proofs.Command
import StructEdit.Proofs.Lookup

namespace StructEdit

theorem Text.IsBoundary.size_concat_le {x after : Text} {c : Char} {n : Nat}
    (hn : (x ++ c :: after).IsBoundary n) (hlt : x.size .utf8 < n) :
    Text.size .utf8 (x ++ [c]) ≤ n := by
  rw [IsBoundary, upTo_append_of_le _ (Nat.le_of_lt hlt), upTo, if_neg (by omega)] at hn
  rw [← hn, size_append, size_append, size_cons, size_cons, size_nil]
  omega

def Tree.Covers (t : Tree) (span : Span) : Prop := t.start ≤ span.start ∧ span.stop ≤ t.stop

/-- The bytes of `c`, if that is the last character of the node. -/
def Tree.lastBytes (t : Tree) (c : Char) : Span := ⟨t.stop - c.utf8Size, t.stop⟩

/-- A node holds the start of a character just if it covers the character. -/
theorem Tree.Fits.holds_iff_covers {text x after : Text} {c : Char} {t : Tree}
    (ht : t.Fits text) (htext : text = x ++ c :: after) :
    t.Holds text (text.bytePointAt (x.size .utf8)) ↔
      t.Covers ⟨x.size .utf8, Text.size .utf8 (x ++ [c])⟩ := by
  have hx : text.IsBoundary (x.size .utf8) :=
    Text.isBoundary_of_isPrefix ⟨c :: after, htext.symm⟩
  have hstop : x.size .utf8 < t.stop ↔ Text.size .utf8 (x ++ [c]) ≤ t.stop := by
    constructor
    · intro hlt
      have hboundary := ht.stop_boundary
      rw [htext] at hboundary
      exact hboundary.size_concat_le hlt
    · intro hle
      have hc := c.utf8Size_pos
      rw [Text.size_append, Text.size_cons, Text.size_nil] at hle
      simp only [Encoding.size] at hle
      omega
  rw [Holds, ← not_lt, hx.bytePointAt_lt_iff ht.start_boundary,
    hx.bytePointAt_lt_iff ht.stop_boundary, not_lt, hstop]
  rfl

namespace Document

variable {doc : Document} {kinds : List String} {p : Point} {q : BytePoint} {s : Cursor}

theorem exists_enclosingAt_of_holds (hw : doc.tree.WellFormed doc.text)
    (hempty : ∀ z, Cursor.Within doc.tree z → ¬z.node.IsEmptyAt doc.text q)
    (hat : doc.nodeAt p = .ok (Tree.descend doc.text q doc.tree []))
    (hs : Cursor.Within doc.tree s) (hkind : s.hasKind kinds)
    (hholds : s.node.Holds doc.text q) :
    ∃ found, doc.enclosingAt kinds p = .ok (some found) ∧ Cursor.Within doc.tree found ∧
      found.hasKind kinds ∧ found.node.Holds doc.text q ∧
      ∀ d, Cursor.Within doc.tree d → d.hasKind kinds → d.node.Holds doc.text q →
        d ∈ found.lineage := by
  have hmem {d : Cursor} (hd : Cursor.Within doc.tree d) (hdholds : d.node.Holds doc.text q) :=
    (Tree.mem_lineage_descend_iff hw hd hempty).mpr (.inr hdholds)
  cases hfound : (Tree.descend doc.text q doc.tree []).enclosing? kinds with
  | none =>
    have hnot := Cursor.enclosing?_eq_none_iff.mp hfound s (hmem hs hholds)
    rw [hkind] at hnot
    cases hnot
  | some found =>
    obtain ⟨hlineage, hfkind, hothers⟩ := Cursor.enclosing?_eq_some_iff.mp hfound
    have hwithin : Cursor.Within doc.tree found :=
      (Tree.descend_within doc.tree [] .root).enclosing? hfound
    have hnested : ∀ d, Cursor.Within doc.tree d → d.hasKind kinds → d.node.Holds doc.text q →
        d ∈ found.lineage := by
      intro d hd hdkind hdholds
      by_cases heq : d = found
      · rw [heq]
        exact found.self_mem_lineage
      · exact List.mem_cons_of_mem _ (hothers d (hmem hd hdholds) heq hdkind)
    refine ⟨found, ?_, hwithin, hfkind, ?_, hnested⟩
    · rw [enclosingAt_eq hat, hfound]
    · rcases (Tree.mem_lineage_descend_iff hw hwithin hempty).mp hlineage with rfl | hfholds
      · have hroot := hnested s hs hkind hholds
        rw [List.mem_singleton.mp hroot] at hholds
        exact hholds
      · exact hfholds

/-- At the end of a scope with none around it the innermost one over its last character is
found. -/
theorem scopeStart_past_last_character {inner : Text} {c : Char}
    (hw : doc.tree.WellFormed doc.text) (hsize : doc.text.size .utf8 < Tree.lookupLimit)
    (hsolid : ∀ t ∈ doc.tree.preorder, t.start ≠ t.stop)
    (hs : Cursor.Within doc.tree s) (hkind : s.hasKind kinds)
    (htext : doc.textOf s.node = .ok (inner ++ [c])) (hline : c ≠ '\n')
    (hunit : Encoding.utf16.size c = 1)
    (hnone : doc.scopeAt kinds (doc.endPoint s.node) = .ok none) :
    ∃ found, Cursor.Within doc.tree found ∧ found.hasKind kinds ∧
      found.node.Covers (s.node.lastBytes c) ∧
      (∀ d, Cursor.Within doc.tree d → d.hasKind kinds → d.node.Covers (s.node.lastBytes c) →
        d ∈ found.lineage) ∧
      doc.scopeStart kinds (doc.endPoint s.node) = .ok (some (doc.startPoint found.node)) ∧
      (found = s ∨ s ∈ found.ancestors ∧ doc.endPoint found.node = doc.endPoint s.node) := by
  obtain ⟨before, after, hdoc, hstart, hstop⟩ := Text.exists_append_of_slice htext
  rw [← List.append_assoc] at hdoc hstop
  have hdoc' : doc.text = before ++ inner ++ c :: after := by
    rw [hdoc, List.append_assoc _ [c]]
    rfl
  have hlast : s.node.lastBytes c =
      ⟨Text.size .utf8 (before ++ inner), Text.size .utf8 (before ++ inner ++ [c])⟩ := by
    rw [Tree.lastBytes, ← hstop, Text.size_append _ _ [c]]
    exact congrArg (Span.mk · _) (Nat.add_sub_cancel _ _)
  have hleft : (doc.endPoint s.node).stepLeft = Text.endPoint (before ++ inner) := by
    rw [endPoint_eq hdoc hstop, Text.stepLeft_endPoint _ hline hunit]
  have hat := nodeAt_of_isPrefix hsize ⟨c :: after, hdoc'.symm⟩
  have hempty : ∀ z, Cursor.Within doc.tree z →
      ¬z.node.IsEmptyAt doc.text
        (doc.text.bytePointAt (Text.size .utf8 (before ++ inner))) := by
    intro z hz ⟨hzstart, hzstop⟩
    have hfits := hz.fits hw
    apply hsolid z.node hz.mem_preorder
    exact hfits.start_boundary.eq_of_bytePointAt_eq hfits.stop_boundary
      (hzstart.trans hzstop.symm)
  have hcovers {d : Cursor} (hd : Cursor.Within doc.tree d) :=
    (hd.fits hw).holds_iff_covers hdoc'
  have hself : s.node.Covers
      ⟨Text.size .utf8 (before ++ inner), Text.size .utf8 (before ++ inner ++ [c])⟩ := by
    refine ⟨?_, Nat.le_of_eq hstop⟩
    rw [← hstart]
    exact Text.size_le_append .utf8 before inner
  obtain ⟨found, hfound, hwithin, hfkind, hholds, hnested⟩ :=
    exists_enclosingAt_of_holds hw hempty hat hs hkind ((hcovers hs).mpr hself)
  rw [← hleft] at hfound
  have hfcovers := (hcovers hwithin).mp hholds
  rw [hlast]
  refine ⟨found, hwithin, hfkind, hfcovers, ?_, scopeStart_of_none hnone hfound, ?_⟩
  · intro d hd hdkind hdcovers
    exact hnested d hd hdkind ((hcovers hd).mpr hdcovers)
  · rcases List.mem_cons.mp (hnested s hs hkind ((hcovers hs).mpr hself)) with heq | hinside
    · exact .inl heq.symm
    · have hle := (hwithin.span_le hw s hinside).2
      have hge : s.node.stop ≤ found.node.stop := hstop ▸ hfcovers.2
      refine .inr ⟨hinside, ?_⟩
      rw [endPoint, endPoint, le_antisymm hle hge]

theorem scopeStart_past_shared_end :
    let list : Tree := .node "array" ⟨4, 8⟩ false [.node "[" ⟨4, 5⟩ false [],
      .node "identifier" ⟨5, 7⟩ false [], .node "]" ⟨7, 8⟩ false []]
    let pair : Tree := .node "pair" ⟨0, 8⟩ false [.node "identifier" ⟨0, 4⟩ false [], list]
    let root : Tree := .node "program" ⟨0, 8⟩ false [pair]
    let doc : Document := ⟨['😀', '[', 'é', ']'], root⟩
    let kinds := ["pair", "array"]
    let s : Cursor := ⟨pair, [⟨root, 0⟩]⟩
    doc.tree.WellFormed doc.text ∧ doc.text.size .utf8 < Tree.lookupLimit ∧
      (∀ t ∈ doc.tree.preorder, t.start ≠ t.stop) ∧ Cursor.Within doc.tree s ∧
      s.hasKind kinds ∧ doc.textOf s.node = .ok (['😀', '[', 'é'] ++ [']']) ∧
      Encoding.utf16.size ']' = 1 ∧ doc.scopeAt kinds (doc.endPoint s.node) = .ok none ∧
      (∃ found, Cursor.Within doc.tree found ∧ found.hasKind kinds ∧
        found.node.Covers (s.node.lastBytes ']') ∧
        (∀ d, Cursor.Within doc.tree d → d.hasKind kinds →
          d.node.Covers (s.node.lastBytes ']') →
          d ∈ found.lineage) ∧
        doc.scopeStart kinds (doc.endPoint s.node) = .ok (some (doc.startPoint found.node)) ∧
        (found = s ∨ s ∈ found.ancestors ∧ doc.endPoint found.node = doc.endPoint s.node)) ∧
      doc.scopeStart kinds (doc.endPoint s.node) = .ok (some (doc.startPoint list)) := by
  intro list pair root doc kinds s
  have hw : doc.tree.WellFormed doc.text := by decide
  have hsize : doc.text.size .utf8 < Tree.lookupLimit := by decide
  have hsolid : ∀ t ∈ doc.tree.preorder, t.start ≠ t.stop := by decide
  have hs : Cursor.Within doc.tree s := .child .root rfl
  have hkind : s.hasKind kinds := by decide
  have htext : doc.textOf s.node = .ok (['😀', '[', 'é'] ++ [']']) := by decide
  have hnone : doc.scopeAt kinds (doc.endPoint s.node) = .ok none := by decide
  have hmove : doc.scopeStart kinds (doc.endPoint s.node) =
      .ok (some (doc.startPoint list)) := by
    decide
  exact ⟨hw, hsize, hsolid, hs, hkind, htext, by decide, hnone,
    scopeStart_past_last_character hw hsize hsolid hs hkind htext (by decide) (by decide) hnone,
    hmove⟩

end Document

end StructEdit
