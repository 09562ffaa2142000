import StructEdit.Proofs.Edit.Target

namespace StructEdit

namespace Text

theorem row_bytePointAt_lt (t : Text) (n : Nat) : (t.bytePointAt n).row < t.lineCount := by
  rw [bytePointAt, endLocation_eq, lineCount, length_lines]
  exact Nat.lt_succ_of_le ((upTo_isPrefix .utf8 t n).sublist.count_le '\n')

theorem line?_eq_none_of_le {t : Text} {row : Nat} (h : t.lineCount ≤ row) :
    t.line? row = none :=
  List.getElem?_eq_none h

end Text

theorem Tree.not_holds_of_lineCount_le {text : Text} {q : BytePoint}
    (h : text.lineCount ≤ q.row)
    (t : Tree) : ¬(t.Holds text q ∨ t.IsEmptyAt text q) := by
  have hstart := text.row_bytePointAt_lt t.start
  have hstop := text.row_bytePointAt_lt t.stop
  rintro (⟨_, hlt⟩ | ⟨heq, _⟩)
  · rw [Location.lt_def] at hlt
    omega
  · rw [heq] at hstart
    omega

namespace Document

variable {doc : Document} {parser : Parser} {tables : Tables} {kinds : List String} {p : Point}

/-- The place that is looked up for a point below the last line. -/
def placeBelow (p : Point) : BytePoint :=
  ⟨p.row % Tree.lookupLimit, p.column % Tree.lookupLimit⟩

theorem nodeAt_of_lineCount_le (h : doc.text.lineCount ≤ p.row) :
    doc.nodeAt p = .ok (Tree.descend doc.text (placeBelow p) doc.tree []) :=
  nodeAt_eq (Text.toBytePoint_of_no_line (Text.line?_eq_none_of_le h))

theorem nodeAt_eq_root_iff (hw : doc.tree.WellFormed doc.text)
    (h : doc.text.lineCount ≤ p.row) :
    doc.nodeAt p = .ok doc.root ↔ ∀ t ∈ doc.tree.children,
      ¬(t.Holds doc.text (placeBelow p) ∨ t.IsEmptyAt doc.text (placeBelow p)) := by
  rw [nodeAt_of_lineCount_le h, Except.ok.injEq]
  exact Tree.descend_eq_root_iff hw

theorem nodeAt_eq_root (hw : doc.tree.WellFormed doc.text) (h : doc.text.lineCount ≤ p.row)
    (hplace : doc.text.lineCount ≤ (placeBelow p).row) : doc.nodeAt p = .ok doc.root :=
  (nodeAt_eq_root_iff hw h).mpr fun t _ => Tree.not_holds_of_lineCount_le hplace t

theorem enclosingAt_of_root (h : doc.nodeAt p = .ok doc.root)
    (hkind : doc.tree.hasKind kinds = false) : doc.enclosingAt kinds p = .ok none := by
  rw [enclosingAt_eq_none_iff h]
  intro a ha
  rw [List.mem_singleton.mp ha]
  exact hkind

theorem moves_of_no_scope (h : doc.scopeAt kinds p = .ok none)
    (hleft : doc.scopeAt kinds p.stepLeft = .ok none) :
    doc.scopeStart kinds p = .ok none ∧ doc.scopeInto kinds p = .ok none ∧
      doc.scopeOut kinds p = .ok none ∧ doc.scopeEnd kinds p = .ok (doc.endPoint doc.tree) := by
  rw [scopeInto, scopeOut, scopeEnd, h]
  exact ⟨scopeStart_of_none h hleft, rfl, rfl, rfl⟩

/-- Below the last line the root is found unless a child holds the place modulo 2³². -/
theorem nodeAt_below_last_line (hw : doc.tree.WellFormed doc.text)
    (hrow : doc.text.lineCount ≤ p.row) :
    (doc.nodeAt p = .ok doc.root ↔ ∀ t ∈ doc.tree.children,
      ¬(t.Holds doc.text (placeBelow p) ∨ t.IsEmptyAt doc.text (placeBelow p))) ∧
    (doc.text.lineCount ≤ p.row % Tree.lookupLimit →
      doc.nodeAt p = .ok doc.root ∧
      (doc.tree.hasKind tables.splittable = false → doc.split tables p = .ok none) ∧
      (doc.tree.hasKind tables.units = false → doc.raise parser tables p = .ok none) ∧
      (doc.tree.hasKind tables.scopes = false →
        doc.barf tables p = .ok none ∧ doc.scopeStart tables.scopes p = .ok none ∧
        doc.scopeInto tables.scopes p = .ok none ∧ doc.scopeOut tables.scopes p = .ok none ∧
        doc.scopeEnd tables.scopes p = .ok (doc.endPoint doc.tree))) := by
  refine ⟨nodeAt_eq_root_iff hw hrow, ?_⟩
  intro hplace
  have hroot : doc.nodeAt p = .ok doc.root := nodeAt_eq_root hw hrow hplace
  have hleft : doc.nodeAt p.stepLeft = .ok doc.root := nodeAt_eq_root hw hrow hplace
  refine ⟨hroot, ?_, ?_, ?_⟩
  · intro hkind
    rw [split, enclosingAt_of_root hroot hkind]
    rfl
  · intro hkind
    exact raise_eq_none_iff.mpr (enclosingAt_of_root hroot hkind)
  · intro hkind
    have hscope : doc.scopeAt tables.scopes p = .ok none := enclosingAt_of_root hroot hkind
    refine ⟨?_, moves_of_no_scope hscope (enclosingAt_of_root hleft hkind)⟩
    rw [barf, hscope]
    rfl

theorem nodeAt_finds_list_in_row_0 :
    let list : Tree :=
      .node "array" ⟨0, 2⟩ false [.node "[" ⟨0, 1⟩ false [], .node "]" ⟨1, 2⟩ false []]
    let doc : Document :=
      ⟨['[', ']'], .node "program" ⟨0, 2⟩ false
        [.node "expression_statement" ⟨0, 2⟩ false [list]]⟩
    let parser : Parser := fun _ => some doc.tree
    let tables := Builtin.javaScriptTables
    doc.tree.WellFormed doc.text ∧ doc.text.lineCount ≤ 0x100000000 ∧
      doc.nodeAt ⟨0x100000000, 0⟩ ≠ .ok doc.root ∧
      doc.scopeStart tables.scopes ⟨0x100000000, 0⟩ = .ok (some ⟨0, 0⟩) ∧
      doc.nodeAt ⟨40, 0⟩ = .ok doc.root ∧ doc.raise parser tables ⟨40, 0⟩ = .ok none ∧
      doc.scopeStart tables.scopes ⟨40, 0⟩ = .ok none := by
  intro list doc parser tables
  have hw : doc.tree.WellFormed doc.text := by decide
  have hbelow (p : Point) (h : doc.text.lineCount ≤ p.row) :=
    @nodeAt_below_last_line doc parser tables p hw h
  have hwrapped : doc.nodeAt ⟨0x100000000, 0⟩ ≠ .ok doc.root := by
    intro h
    have hnone := (hbelow ⟨0x100000000, 0⟩ (by decide)).1.mp h _ List.mem_cons_self
    exact hnone (.inl (by decide))
  obtain ⟨hroot, _, hraise, hscopes⟩ := (hbelow ⟨40, 0⟩ (by decide)).2 (by decide)
  exact ⟨hw, by decide, hwrapped, by decide, hroot, hraise (by decide),
    (hscopes (by decide)).2.1⟩

end Document

end StructEdit
