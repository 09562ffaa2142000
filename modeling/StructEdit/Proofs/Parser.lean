import StructEdit.Parser
import StructEdit.Proofs.Document
import StructEdit.Proofs.Tree.Preorder

namespace StructEdit

namespace Tree

theorem errorsAll_eq (ts : List Tree) : errorsAll ts = ts.flatMap errors := by
  induction ts with
  | nil => rfl
  | cons t ts ih => rw [errorsAll, ih, List.flatMap_cons]

/-- The error nodes are all nodes that are errors, in preorder. -/
theorem errors_eq_filter (t : Tree) : t.errors = t.preorder.filter isError := by
  induction t using Tree.induction with
  | node kind span missing children ih =>
    have hchildren : children.flatMap errors = (children.flatMap preorder).filter isError := by
      rw [List.filter_flatMap]
      exact List.flatMap_congr ih
    rw [errors, errorsAll_eq, hchildren, preorder, preorderAll_eq, List.filter_cons]

theorem anyErrors_eq (ts : List Tree) : anyErrors ts = ts.any hasErrors := by
  induction ts with
  | nil => rfl
  | cons t ts ih => rw [anyErrors, ih, List.any_cons]

theorem hasErrors_eq_any (t : Tree) : t.hasErrors = t.preorder.any isError := by
  induction t using Tree.induction with
  | node kind span missing children ih =>
    have hchildren : children.any hasErrors = (children.flatMap preorder).any isError := by
      rw [List.any_flatMap, Bool.eq_iff_iff, List.any_eq_true, List.any_eq_true]
      exact exists_congr fun u => and_congr_right fun hu => by rw [ih u hu]
    rw [hasErrors, anyErrors_eq, hchildren, preorder, preorderAll_eq, List.any_cons]

theorem hasErrors_iff (t : Tree) : t.hasErrors = true ↔ t.errors ≠ [] := by
  rw [hasErrors_eq_any, errors_eq_filter, List.any_eq_true, Ne, List.filter_eq_nil_iff]
  push Not
  rfl

def errorCursors (t : Tree) : List Cursor := t.cursors.filter fun c => c.node.isError

theorem mem_errorCursors_iff {t : Tree} {c : Cursor} :
    c ∈ t.errorCursors ↔ Cursor.Within t c ∧ (c.kind = "ERROR" ∨ c.node.missing = true) := by
  rw [errorCursors, List.mem_filter, mem_cursors_iff, isError, Bool.or_eq_true, beq_iff_eq]
  rfl

theorem errors_eq_map_node (t : Tree) : t.errors = t.errorCursors.map Cursor.node := by
  rw [errors_eq_filter, ← map_node_cursors, List.filter_map]
  rfl

end Tree

theorem Text.splicePadded_append (before inner after inserted : Text) :
    (before ++ inner ++ after).splicePadded (before.size .utf8)
        (Text.size .utf8 (before ++ inner)) inserted =
      .ok (before ++ [' '] ++ inserted ++ [' '] ++ after) := by
  rw [splicePadded, if_pos (size_le_append .utf8 before inner), cut_append_append, cut_append]
  rfl

namespace Parser

variable {parser : Parser} {t : Text} {tree : Tree}

/-- The text gets a tree, and no node of it is an error or was put in. -/
def Clean (parser : Parser) (t : Text) : Prop :=
  ∃ tree, parser t = some tree ∧ ∀ u ∈ tree.preorder, u.isError = false

theorem clean_iff_errors_eq_nil (h : parser t = some tree) :
    parser.Clean t ↔ tree.errors = [] := by
  rw [tree.errors_eq_filter, List.filter_eq_nil_iff]
  constructor
  · rintro ⟨tree', htree', hclean⟩ u hu
    rw [h, Option.some.injEq] at htree'
    subst htree'
    rw [hclean u hu]
    decide
  · intro hclean
    exact ⟨tree, h, fun u hu => Bool.eq_false_iff.mpr (hclean u hu)⟩

instance : Decidable (parser.Clean t) :=
  match h : parser t with
  | some _ => decidable_of_iff _ (clean_iff_errors_eq_nil h).symm
  | none => isFalse fun ⟨_, htree, _⟩ => nomatch h.symm.trans htree

theorem validate_cases (h : parser t = some tree) :
    tree.errors = [] ∧ parser.validate t = .ok () ∨
    (∃ e, tree.errors = [e] ∧
      parser.validate t = .error (.oneError (Document.startPoint ⟨t, tree⟩ e) e.span)) ∨
    2 ≤ tree.errors.length ∧ parser.validate t = .error (.manyErrors tree.errors.length) := by
  rw [validate, document, h]
  simp only [ok_bind]
  split
  · next he => exact .inl ⟨he, rfl⟩
  · next e he => exact .inr (.inl ⟨e, he, rfl⟩)
  · next hnone hone =>
    refine .inr (.inr ⟨?_, rfl⟩)
    cases he : tree.errors with
    | nil => exact absurd he hnone
    | cons e es =>
      cases es with
      | nil => exact absurd he (hone e)
      | cons e' es => exact Nat.le_add_left 2 es.length

theorem validate_eq_ok_iff : parser.validate t = .ok () ↔ parser.Clean t := by
  cases hparse : parser t with
  | none =>
    rw [validate, document, hparse]
    constructor
    · intro h
      cases h
    · rintro ⟨tree, htree, _⟩
      rw [hparse] at htree
      cases htree
  | some tree =>
    rw [clean_iff_errors_eq_nil hparse]
    rcases validate_cases hparse with ⟨he, hverdict⟩ | ⟨e, he, hverdict⟩ | ⟨he, hverdict⟩
    · simp [he, hverdict]
    · simp [he, hverdict]
    · rw [hverdict, ← List.length_eq_zero_iff]
      constructor
      · intro h
        cases h
      · omega

theorem validate_eq_oneError_iff (h : parser t = some tree) {start : Point} {span : Span} :
    parser.validate t = .error (.oneError start span) ↔
      ∃ e, tree.errors = [e] ∧ start = Document.startPoint ⟨t, tree⟩ e ∧ span = e.span := by
  rcases validate_cases h with ⟨he, hverdict⟩ | ⟨e, he, hverdict⟩ | ⟨he, hverdict⟩
  · simp [he, hverdict]
  · simp [he, hverdict, eq_comm]
  · rw [hverdict]
    constructor
    · intro h
      cases h
    · rintro ⟨e, hone, _⟩
      rw [hone] at he
      cases Nat.le_of_succ_le_succ he

theorem validate_eq_manyErrors_iff (h : parser t = some tree) {count : Nat} :
    parser.validate t = .error (.manyErrors count) ↔
      tree.errors.length = count ∧ 2 ≤ count := by
  rcases validate_cases h with ⟨he, hverdict⟩ | ⟨e, he, hverdict⟩ | ⟨he, hverdict⟩
  · rw [hverdict, he]
    constructor
    · intro h
      cases h
    · rintro ⟨rfl, hle⟩
      cases hle
  · rw [hverdict, he]
    constructor
    · intro h
      cases h
    · rintro ⟨rfl, hle⟩
      cases Nat.le_of_succ_le_succ hle
  · rw [hverdict]
    constructor
    · intro h
      cases h
      exact ⟨rfl, he⟩
    · rintro ⟨rfl, _⟩
      rfl

theorem acceptsReplacement_append {before inner after inserted : Text} :
    parser.acceptsReplacement (before ++ inner ++ after) (before.size .utf8)
      (Text.size .utf8 (before ++ inner)) inserted = .ok true ↔
      parser.Clean (before ++ [' '] ++ inserted ++ [' '] ++ after) := by
  rw [← validate_eq_ok_iff, acceptsReplacement, Text.splicePadded_append]
  change (Except.ok _ >>= _) = _ ↔ _
  rw [ok_bind]
  split
  · next h => exact ⟨fun _ => h, fun _ => rfl⟩
  · next e h =>
    rw [h]
    constructor
    · intro h'
      split at h' <;> cases h'
    · intro h'
      cases h'

theorem acceptsReplacement_append_eq {before inner after inserted : Text}
    (h : parser (before ++ [' '] ++ inserted ++ [' '] ++ after) = some tree) :
    parser.acceptsReplacement (before ++ inner ++ after) (before.size .utf8)
      (Text.size .utf8 (before ++ inner)) inserted = .ok tree.errors.isEmpty := by
  rw [acceptsReplacement, Text.splicePadded_append]
  change (Except.ok _ >>= _) = _
  rw [ok_bind]
  rcases validate_cases h with ⟨he, hverdict⟩ | ⟨e, he, hverdict⟩ | ⟨he, hverdict⟩
  · rw [hverdict, he]
    rfl
  · rw [hverdict, he]
    rfl
  · have hne : tree.errors.isEmpty = false := by
      rw [List.isEmpty_eq_false_iff, ← List.length_pos_iff]
      omega
    rw [hverdict, hne]
    rfl

/-- A text passes if its tree has no error nodes, and a replacement if the padded text does. -/
theorem verdicts_follow_errors (h : parser t = some tree) :
    (∃ es : List Cursor,
      (∀ c, c ∈ es ↔ Cursor.Within tree c ∧ (c.kind = "ERROR" ∨ c.node.missing = true)) ∧
      es.Pairwise Cursor.Precedes ∧ tree.errors = es.map Cursor.node) ∧
    (tree.hasErrors = true ↔ tree.errors ≠ []) ∧
    (parser.validate t = .ok () ↔ tree.errors = []) ∧
    (∀ start span, parser.validate t = .error (.oneError start span) ↔
      ∃ e, tree.errors = [e] ∧ start = Document.startPoint ⟨t, tree⟩ e ∧ span = e.span) ∧
    (∀ (e : Tree) (s : Text), s <+: t → s.size .utf8 = e.start →
      Document.startPoint ⟨t, tree⟩ e = s.endPoint) ∧
    (∀ count, parser.validate t = .error (.manyErrors count) ↔
      tree.errors.length = count ∧ 2 ≤ count) ∧
    ∀ (source : Text) (start stop : Nat), source.IsBoundary start → source.IsBoundary stop →
      start ≤ stop →
      ∃ before inner after, source = before ++ inner ++ after ∧ before.size .utf8 = start ∧
        Text.size .utf8 (before ++ inner) = stop ∧
        ∀ inserted candidate,
          parser (before ++ [' '] ++ inserted ++ [' '] ++ after) = some candidate →
          parser.acceptsReplacement source start stop inserted =
            .ok candidate.errors.isEmpty := by
  refine ⟨?_, tree.hasErrors_iff, ?_, fun _ _ => validate_eq_oneError_iff h, ?_,
    fun _ => validate_eq_manyErrors_iff h, ?_⟩
  · exact ⟨tree.errorCursors, fun _ => Tree.mem_errorCursors_iff,
      tree.pairwise_cursors.sublist List.filter_sublist, tree.errors_eq_map_node⟩
  · rw [validate_eq_ok_iff, clean_iff_errors_eq_nil h]
  · rintro e s ⟨r, hr⟩ hs
    exact Document.startPoint_eq hr.symm hs
  · intro source start stop hstart hstop hle
    obtain ⟨before, inner, after, rfl, rfl, rfl⟩ := hstart.exists_append_append hstop hle
    exact ⟨before, inner, after, rfl, rfl, rfl, fun _ _ hcandidate =>
      acceptsReplacement_append_eq hcandidate⟩

theorem verdicts_follow_nested_errors :
    let text : Text := ['é', '😀', ';', '(']
    let closing : Tree := .node ")" ⟨8, 8⟩ true []
    let tree : Tree := .node "program" ⟨0, 8⟩ false [.node "identifier" ⟨0, 6⟩ false [],
      .node ";" ⟨6, 7⟩ false [], .node "(" ⟨7, 8⟩ false [], closing]
    let clean : Tree := .node "program" ⟨0, 9⟩ false [.node "identifier" ⟨0, 6⟩ false [],
      .node ";" ⟨6, 7⟩ false [], .node "identifier" ⟨8, 9⟩ false []]
    let nested : Tree := .node "program" ⟨0, 9⟩ false [.node "ERROR" ⟨0, 9⟩ false
      [.node "identifier" ⟨0, 6⟩ false [],
        .node "ERROR" ⟨8, 9⟩ false [.node ")" ⟨8, 9⟩ false []]]]
    let parser : Parser := fun s =>
      if s = text then some tree
      else if s = ['é', '😀', ';', ' ', 'x', ' '] then some clean
      else some nested
    parser text = some tree ∧ tree.hasErrors = true ∧
      (∃ es : List Cursor, es.map Cursor.node = [closing] ∧ ∀ c, c ∈ es ↔
        Cursor.Within tree c ∧ (c.kind = "ERROR" ∨ c.node.missing = true)) ∧
      parser.validate text = .error (.oneError ⟨0, 5⟩ ⟨8, 8⟩) ∧
      parser.validate ['é', '😀', ';', ' ', ')', ' '] = .error (.manyErrors 2) ∧
      text.IsBoundary 7 ∧ text.IsBoundary 8 ∧
      parser.acceptsReplacement text 7 8 ['x'] = .ok true ∧
      parser.acceptsReplacement text 7 8 [')'] = .ok false := by
  intro text closing tree clean nested parser
  have hparse : parser text = some tree := rfl
  have hnested : parser ['é', '😀', ';', ' ', ')', ' '] = some nested := rfl
  obtain ⟨⟨es, hes, _, herrors⟩, hany, _, hone, _, _, haccepts⟩ := verdicts_follow_errors hparse
  obtain ⟨_, _, _, _, _, hmany, _⟩ := verdicts_follow_errors hnested
  obtain ⟨before, inner, after, htext, hbefore, hinner, haccepts⟩ :=
    haccepts text 7 8 (by decide) (by decide) (by decide)
  have hcut : ['é', '😀', ';'] ++ ['('] ++ [] = before ++ inner ++ after := htext
  obtain ⟨_, rfl⟩ := Text.append_inj_of_size hcut hinner.symm
  rw [List.append_nil, List.append_nil] at hcut
  obtain ⟨rfl, rfl⟩ := Text.append_inj_of_size hcut hbefore.symm
  exact ⟨hparse, hany.mpr (by decide), ⟨es, herrors.symm, hes⟩,
    (hone _ _).mpr ⟨closing, rfl, rfl, rfl⟩, (hmany 2).mpr ⟨rfl, by decide⟩, by decide,
    by decide, haccepts ['x'] clean rfl, haccepts [')'] nested rfl⟩

end Parser

end StructEdit
