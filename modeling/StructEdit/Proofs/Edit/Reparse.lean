import StructEdit.Language.Builtin
import StructEdit.Proofs.Edit.Region
import StructEdit.Proofs.Parser
import StructEdit.Tree.Snapshot

namespace StructEdit

namespace Document

variable {doc : Document} {parser : Parser} {tables : Tables} {p : Point}

theorem apply_raiseOver {target unit : Tree} {unitText before inner after : Text}
    (hw : doc.WellFormed) (htext : doc.text = before ++ inner ++ after)
    (hstart : before.size .utf8 = target.start)
    (hstop : Text.size .utf8 (before ++ inner) = target.stop) :
    (doc.raiseOver target unit unitText).apply doc.text = .ok (before ++
      unitText.reindent ((doc.startPoint target).column - (doc.startPoint unit).column) ++
      after) := by
  have hstart' : doc.startPoint target = before.endPoint :=
    startPoint_eq (htext.trans (List.append_assoc _ _ _)) hstart
  exact Replacement.apply_eq htext hw.addressable hstart' (endPoint_eq htext hstop)

theorem Raises.clean_padded {c target : Cursor} {unit before inner after : Text}
    (h : doc.Raises parser tables p c target unit) (htext : doc.text = before ++ inner ++ after)
    (hstart : before.size .utf8 = target.node.start)
    (hstop : Text.size .utf8 (before ++ inner) = target.node.stop) :
    parser.Clean (before ++ [' '] ++ unit ++ [' '] ++ after) := by
  have haccepted := h.accepted
  rw [htext, ← hstart, ← hstop] at haccepted
  exact Parser.acceptsReplacement_append.mp haccepted

/-- A raise leaves an error exactly if the padded text is clean and the edited text is not. -/
theorem raise_leaves_error_iff (hw : doc.WellFormed) :
    (∃ r, doc.raise parser tables p = .ok (some r) ∧
      ¬∃ edited, r.apply doc.text = .ok edited ∧ parser.Clean edited) ↔
    ∃ c target unit before inner after, doc.Raises parser tables p c target unit ∧
      doc.text = before ++ inner ++ after ∧ before.size .utf8 = target.node.start ∧
      Text.size .utf8 (before ++ inner) = target.node.stop ∧
      parser.Clean (before ++ [' '] ++ unit ++ [' '] ++ after) ∧
      ¬parser.Clean (before ++ unit.reindent
        ((doc.startPoint target.node).column - (doc.startPoint c.node).column) ++ after) := by
  constructor
  · rintro ⟨r, hraise, hdirty⟩
    obtain ⟨c, target, unit, hraises, rfl⟩ := raise_eq_some_iff.mp hraise
    obtain ⟨before, inner, after, htext, hstart, hstop⟩ :=
      (hraises.target_within.fits hw.tree).exists_append
    refine ⟨c, target, unit, before, inner, after, hraises, htext, hstart, hstop,
      hraises.clean_padded htext hstart hstop, ?_⟩
    intro hclean
    exact hdirty ⟨_, apply_raiseOver hw htext hstart hstop, hclean⟩
  · rintro ⟨c, target, unit, before, inner, after, hraises, htext, hstart, hstop, _, hdirty⟩
    refine ⟨_, raise_eq_some_iff.mpr ⟨c, target, unit, hraises, rfl⟩, ?_⟩
    rintro ⟨edited, happly, hclean⟩
    rw [apply_raiseOver hw htext hstart hstop] at happly
    cases happly
    exact hdirty hclean

def callTree (m n : Nat) : Tree :=
  .node "call_expression" ⟨m, n + 3⟩ false [
    .node "identifier" ⟨m, n⟩ false [],
    .node "arguments" ⟨n, n + 3⟩ false [.node "(" ⟨n, n + 1⟩ false [],
      .node "identifier" ⟨n + 1, n + 2⟩ false [], .node ")" ⟨n + 2, n + 3⟩ false []]]

/-- A statement in which a parenthesis is all that ends the word before it. -/
def wordBeforeUnit : Document where
  text := ['k', ' ', 'i', 'n', '(', 'f', '(', 'g', ')', ')', ';', '\n']
  tree :=
    .node "program" ⟨0, 12⟩ false [.node "expression_statement" ⟨0, 11⟩ false [
      .node "binary_expression" ⟨0, 10⟩ false [
        .node "identifier" ⟨0, 1⟩ false [], .node "in" ⟨2, 4⟩ false [],
        .node "parenthesized_expression" ⟨4, 10⟩ false [
          .node "(" ⟨4, 5⟩ false [], callTree 5 6, .node ")" ⟨9, 10⟩ false []]],
      .node ";" ⟨10, 11⟩ false []]]

def wordBeforeUnitParser : Parser := .ofSnapshots
  [⟨wordBeforeUnit.text, wordBeforeUnit.tree⟩,
    ⟨['k', ' ', 'i', 'n', ' ', 'f', '(', 'g', ')', ' ', ';', '\n'],
      .node "program" ⟨0, 12⟩ false [.node "expression_statement" ⟨0, 11⟩ false [
        .node "binary_expression" ⟨0, 9⟩ false [
          .node "identifier" ⟨0, 1⟩ false [], .node "in" ⟨2, 4⟩ false [], callTree 5 6],
        .node ";" ⟨10, 11⟩ false []]]⟩,
    ⟨['k', ' ', 'i', 'n', 'f', '(', 'g', ')', ';', '\n'],
      .node "program" ⟨0, 10⟩ false [
        .node "ERROR" ⟨0, 1⟩ false [.node "identifier" ⟨0, 1⟩ false []],
        .node "expression_statement" ⟨2, 9⟩ false [callTree 2 5, .node ";" ⟨8, 9⟩ false []]]⟩]

theorem raise_joins_words :
    wordBeforeUnit.WellFormed ∧
      wordBeforeUnitParser wordBeforeUnit.text = some wordBeforeUnit.tree ∧
      wordBeforeUnit.raise wordBeforeUnitParser Builtin.javaScriptTables ⟨0, 6⟩ =
        .ok (some ⟨⟨0, 4⟩, ⟨0, 10⟩, ['f', '(', 'g', ')'], none⟩) ∧
      ∃ c target unit before inner after,
        wordBeforeUnit.Raises wordBeforeUnitParser Builtin.javaScriptTables ⟨0, 6⟩ c target
          unit ∧
        wordBeforeUnit.text = before ++ inner ++ after ∧
        before.size .utf8 = target.node.start ∧
        Text.size .utf8 (before ++ inner) = target.node.stop ∧
        wordBeforeUnitParser.Clean (before ++ [' '] ++ unit ++ [' '] ++ after) ∧
        ¬wordBeforeUnitParser.Clean (before ++ unit.reindent
          ((wordBeforeUnit.startPoint target.node).column -
            (wordBeforeUnit.startPoint c.node).column) ++ after) := by
  refine ⟨by decide, rfl, rfl, (raise_leaves_error_iff (by decide)).mp ⟨_, rfl, ?_⟩⟩
  rintro ⟨edited, happly, hclean⟩
  cases happly
  exact absurd hclean (by decide)

end Document

end StructEdit
