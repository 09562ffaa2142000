import StructEdit.Proofs.Command
import StructEdit.Proofs.Edit.Reparse
import StructEdit.Proofs.Lookup
import StructEdit.Proofs.Text.Indent

namespace StructEdit

namespace Document

variable {doc : Document} {parser : Parser} {tables : Tables} {p : Point} {t : Tree}
  {unit : Text} {c : Cursor} {cs : List Cursor}

/-- The text with the unit between blanks in the place of the node is clean. -/
def Accepts (doc : Document) (parser : Parser) (unit : Text) (t : Tree) : Prop :=
  ∃ before inner after, doc.text = before ++ inner ++ after ∧
    before.size .utf8 = t.start ∧ Text.size .utf8 (before ++ inner) = t.stop ∧
    parser.Clean (before ++ [' '] ++ unit ++ [' '] ++ after)

theorem acceptsReplacement_eq_true_iff (ht : t.Fits doc.text) :
    parser.acceptsReplacement doc.text t.start t.stop unit = .ok true ↔
      doc.Accepts parser unit t := by
  constructor
  · intro h
    obtain ⟨before, inner, after, htext, hstart, hstop⟩ := ht.exists_append
    rw [htext, ← hstart, ← hstop] at h
    exact ⟨before, inner, after, htext, hstart, hstop, Parser.acceptsReplacement_append.mp h⟩
  · intro ⟨before, inner, after, htext, hstart, hstop, hclean⟩
    rw [htext, ← hstart, ← hstop]
    exact Parser.acceptsReplacement_append.mpr hclean

section Total

variable (htotal : ∀ s, ∃ tree, parser s = some tree)

include htotal

theorem exists_acceptsReplacement (unit : Text) (ht : t.Fits doc.text) :
    ∃ accepted, parser.acceptsReplacement doc.text t.start t.stop unit = .ok accepted := by
  obtain ⟨before, inner, after, htext, hstart, hstop⟩ := ht.exists_append
  obtain ⟨tree, htree⟩ := htotal (before ++ [' '] ++ unit ++ [' '] ++ after)
  rw [htext, ← hstart, ← hstop]
  exact ⟨_, Parser.acceptsReplacement_append_eq htree⟩

theorem acceptsReplacement_eq_false_iff (ht : t.Fits doc.text) :
    parser.acceptsReplacement doc.text t.start t.stop unit = .ok false ↔
      ¬doc.Accepts parser unit t := by
  obtain ⟨accepted, haccepted⟩ := exists_acceptsReplacement htotal unit ht
  rw [← acceptsReplacement_eq_true_iff ht, haccepted]
  cases accepted <;> simp

theorem exists_firstAccepting (unit : Text) (hcs : ∀ a ∈ cs, a.node.Fits doc.text) :
    ∃ found, doc.firstAccepting parser unit cs = .ok found := by
  induction cs with
  | nil => exact ⟨none, rfl⟩
  | cons a cs ih =>
    obtain ⟨ha, hcs⟩ := List.forall_mem_cons.mp hcs
    apply exists_ok_bind (exists_acceptsReplacement htotal unit ha)
    intro accepted _
    cases accepted with
    | true => exact ⟨some a, rfl⟩
    | false => exact ih hcs

end Total

theorem firstAccepting_eq_none_iff : doc.firstAccepting parser unit cs = .ok none ↔
    ∀ a ∈ cs, parser.acceptsReplacement doc.text a.node.start a.node.stop unit = .ok false := by
  induction cs with
  | nil => exact ⟨fun _ a ha => absurd ha List.not_mem_nil, fun _ => rfl⟩
  | cons a cs ih =>
    rw [List.forall_mem_cons, ← ih]
    constructor
    · intro h
      obtain ⟨accepted, haccepted, h⟩ := exists_of_bind_ok h
      cases accepted with
      | true => cases h
      | false => exact ⟨haccepted, h⟩
    · intro ⟨haccepted, h⟩
      rw [firstAccepting, haccepted]
      exact h

theorem raise_eq_none_iff : doc.raise parser tables p = .ok none ↔
    doc.enclosingAt tables.units p = .ok none := by
  constructor
  · intro h
    obtain ⟨found, hfound, h⟩ := exists_of_bind_ok h
    cases found with
    | none => exact liftM_eq_ok_iff.mp hfound
    | some c =>
      obtain ⟨unit, _, h⟩ := exists_of_bind_ok h
      obtain ⟨target, _, h⟩ := exists_of_bind_ok h
      cases target <;> cases h
  · intro h
    rw [raise, liftM_eq_ok_iff.mpr h]
    rfl

section Unit

variable (hfound : doc.enclosingAt tables.units p = .ok (some c))
  (hunit : doc.textOf c.node = .ok unit)

include hfound hunit

theorem raise_of_firstAccepting_none
    (hnone : doc.firstAccepting parser unit c.ancestors = .ok none) :
    doc.raise parser tables p = .error (.raiseExhausted c.kind (doc.startPoint c.node)) := by
  rw [raise, liftM_eq_ok_iff.mpr hfound, ok_bind]
  simp only [liftM_eq_ok_iff.mpr hunit, ok_bind, hnone]
  rfl

theorem raises_of_raise {r : Replacement} (h : doc.raise parser tables p = .ok (some r)) :
    ∃ target, doc.Raises parser tables p c target unit ∧
      r = doc.raiseOver target.node c.node unit := by
  obtain ⟨c', target, unit', hraises, hr⟩ := raise_eq_some_iff.mp h
  obtain rfl : c' = c := Option.some.inj (Except.ok.inj (hraises.found.symm.trans hfound))
  obtain rfl : unit' = unit := Except.ok.inj (hraises.text.symm.trans hunit)
  exact ⟨target, hraises, hr⟩

theorem exists_raise_iff (htotal : ∀ s, ∃ tree, parser s = some tree)
    (hfits : ∀ a ∈ c.ancestors, a.node.Fits doc.text) :
    (∃ r, doc.raise parser tables p = .ok (some r)) ↔
      ∃ a ∈ c.ancestors, doc.Accepts parser unit a.node := by
  constructor
  · intro ⟨r, h⟩
    obtain ⟨target, hraises, _⟩ := raises_of_raise hfound hunit h
    obtain ⟨nearer, farther, hancestors, _⟩ := hraises.nearest
    have hmem : target ∈ c.ancestors := by
      rw [hancestors]
      exact List.mem_append_right nearer List.mem_cons_self
    exact ⟨target, hmem, (acceptsReplacement_eq_true_iff (hfits target hmem)).mp
      hraises.accepted⟩
  · intro ⟨a, ha, haccepts⟩
    obtain ⟨found, hfirst⟩ := exists_firstAccepting htotal unit hfits
    cases found with
    | none =>
      have hrejected := firstAccepting_eq_none_iff.mp hfirst a ha
      exact absurd haccepts ((acceptsReplacement_eq_false_iff htotal (hfits a ha)).mp hrejected)
    | some target =>
      obtain ⟨nearer, farther, hancestors, hnearer, htarget⟩ :=
        firstAccepting_eq_some_iff.mp hfirst
      exact ⟨_, raise_eq_some_iff.mpr
        ⟨c, target, unit, ⟨hfound, hunit, ⟨nearer, farther, hancestors, hnearer⟩, htarget⟩,
          rfl⟩⟩

end Unit

/-- The edit puts the unit, moved to the column of the target, in the place of the target. -/
def PutsOver (doc : Document) (parser : Parser) (c target : Tree) (unit : Text)
    (r : Replacement) : Prop :=
  r.start = doc.startPoint target ∧ r.stop = doc.endPoint target ∧
    ∃ before inner after first rest, doc.text = before ++ inner ++ after ∧
      before.size .utf8 = target.start ∧ Text.size .utf8 (before ++ inner) = target.stop ∧
      parser.Clean (before ++ [' '] ++ unit ++ [' '] ++ after) ∧
      unit.lines = first :: rest ∧
      r.apply doc.text = .ok (before ++ Text.joinLines (first :: rest.map (Text.shiftLine
        ((doc.startPoint target).column - (doc.startPoint c).column))) ++ after)

theorem Raises.putsOver {target : Cursor} (hw : doc.WellFormed)
    (h : doc.Raises parser tables p c target unit) :
    doc.PutsOver parser c.node target.node unit (doc.raiseOver target.node c.node unit) := by
  obtain ⟨before, inner, after, htext, hstart, hstop⟩ :=
    (h.target_within.fits hw.tree).exists_append
  obtain ⟨first, rest, hlines⟩ := List.exists_cons_of_ne_nil unit.lines_ne_nil
  have hclean := h.clean_padded htext hstart hstop
  refine ⟨rfl, rfl, before, inner, after, first, rest, htext, hstart, hstop, hclean, hlines, ?_⟩
  rw [apply_raiseOver hw htext hstart hstop, Text.reindent_eq hlines]

/-- The innermost unit takes the place of the nearest ancestor that the parser lets it take. -/
theorem raise_takes_nearest (hw : doc.WellFormed)
    (htotal : ∀ s : Text, ∃ tree, parser s = some tree) :
    (∀ cause, doc.nodeAt p = .error cause →
      doc.raise parser tables p = .error (.fault cause)) ∧
    ∀ c₀ : Cursor, doc.nodeAt p = .ok c₀ →
      (doc.raise parser tables p = .ok none ↔
        ∀ a ∈ c₀.lineage, a.hasKind tables.units = false) ∧
      ∀ (nearer : List Cursor) (c : Cursor) (farther : List Cursor),
        c₀.lineage = nearer ++ c :: farther →
        (∀ a ∈ nearer, a.hasKind tables.units = false) → c.hasKind tables.units = true →
        ∃ unit, doc.textOf c.node = .ok unit ∧
          ((∃ r, doc.raise parser tables p = .ok (some r)) ↔
            ∃ a ∈ c.ancestors, doc.Accepts parser unit a.node) ∧
          (∀ r, doc.raise parser tables p = .ok (some r) →
            ∃ between target beyond, c.ancestors = between ++ target :: beyond ∧
              (∀ a ∈ between, ¬doc.Accepts parser unit a.node) ∧
              doc.PutsOver parser c.node target.node unit r) ∧
          ((∀ a ∈ c.ancestors, ¬doc.Accepts parser unit a.node) →
            doc.raise parser tables p =
              .error (.raiseExhausted c.kind (doc.startPoint c.node))) := by
  constructor
  · intro cause hcause
    rw [raise, enclosingAt, hcause]
    rfl
  intro c₀ hc₀
  refine ⟨raise_eq_none_iff.trans (enclosingAt_eq_none_iff hc₀), ?_⟩
  intro nearer c farther hlineage hnearer hc
  have hfound := enclosingAt_eq_some hc₀ hlineage hnearer hc
  have hwithin := enclosingAt_within hfound
  have hfits : ∀ a ∈ c.ancestors, a.node.Fits doc.text :=
    fun a ha => (hwithin.ancestors a ha).fits hw.tree
  obtain ⟨unit, hunit⟩ := exists_textOf (hwithin.fits hw.tree)
  refine ⟨unit, hunit, exists_raise_iff hfound hunit htotal hfits, ?_, ?_⟩
  · intro r hr
    obtain ⟨target, hraises, rfl⟩ := raises_of_raise hfound hunit hr
    obtain ⟨between, beyond, hancestors, hbetween⟩ := hraises.nearest
    refine ⟨between, target, beyond, hancestors, ?_, hraises.putsOver hw⟩
    intro a ha
    have hmem : a ∈ c.ancestors := by
      rw [hancestors]
      exact List.mem_append_left _ ha
    exact (acceptsReplacement_eq_false_iff htotal (hfits a hmem)).mp (hbetween a ha)
  · intro hrejects
    apply raise_of_firstAccepting_none hfound hunit
    apply firstAccepting_eq_none_iff.mpr
    intro a ha
    exact (acceptsReplacement_eq_false_iff htotal (hfits a ha)).mpr (hrejects a ha)

def arrayTree (n : Nat) : Tree :=
  .node "array" ⟨n, n + 8⟩ false [.node "[" ⟨n, n + 1⟩ false [],
    .node "number" ⟨n + 6, n + 7⟩ false [], .node "]" ⟨n + 7, n + 8⟩ false []]

def callWith (argument : Tree) (n : Nat) : Tree :=
  .node "program" ⟨0, n⟩ false [.node "expression_statement" ⟨0, n⟩ false [
    .node "call_expression" ⟨0, n⟩ false [.node "identifier" ⟨0, 1⟩ false [],
      .node "arguments" ⟨1, n⟩ false [.node "(" ⟨1, 2⟩ false [], argument,
        .node ")" ⟨n - 1, n⟩ false []]]]]

def arrayInPair : Document where
  text := ['f', '(', '{', 'a', ':', '[', '\n', ' ', ' ', ' ', ' ', '1', ']', '}', ')']
  tree :=
    callWith (.node "object" ⟨2, 14⟩ false [.node "\x7b" ⟨2, 3⟩ false [],
      .node "pair" ⟨3, 13⟩ false [.node "property_identifier" ⟨3, 4⟩ false [],
        .node ":" ⟨4, 5⟩ false [], arrayTree 5],
      .node "\x7d" ⟨13, 14⟩ false []]) 15

def arrayInPairParser : Parser := fun s =>
  if s = arrayInPair.text then some arrayInPair.tree
  else if s = ['f', '(', ' ', '[', '\n', ' ', ' ', ' ', ' ', '1', ']', ' ', ')'] then
    some (callWith (arrayTree 3) 13)
  else some (.node "ERROR" ⟨0, s.size .utf8⟩ false [])

theorem raise_skips_pair :
    let bracket := arrayInPair.tree.deepestAt arrayInPair.text ⟨0, 5⟩
    let array := bracket.parent?.getD bracket
    let r : Replacement := ⟨⟨0, 2⟩, ⟨1, 7⟩, ['[', '\n', ' ', '1', ']'], none⟩
    arrayInPair.WellFormed ∧ (∀ s, ∃ tree, arrayInPairParser s = some tree) ∧
      arrayInPair.raise arrayInPairParser Builtin.javaScriptTables ⟨0, 5⟩ = .ok (some r) ∧
      ∃ unit, arrayInPair.textOf array.node = .ok unit ∧
        (∃ a ∈ array.ancestors, arrayInPair.Accepts arrayInPairParser unit a.node) ∧
        ∃ between target beyond, array.ancestors = between ++ target :: beyond ∧
          (∀ a ∈ between, ¬arrayInPair.Accepts arrayInPairParser unit a.node) ∧
          arrayInPair.PutsOver arrayInPairParser array.node target.node unit r := by
  intro bracket array r
  have hw : arrayInPair.WellFormed := by decide
  have htotal : ∀ s, ∃ tree, arrayInPairParser s = some tree := by
    intro s
    rw [arrayInPairParser]
    split
    · exact ⟨_, rfl⟩
    · split <;> exact ⟨_, rfl⟩
  have hraise : arrayInPair.raise arrayInPairParser Builtin.javaScriptTables ⟨0, 5⟩ =
      .ok (some r) := by decide
  have hlineage : bracket.lineage = [bracket] ++ array :: array.ancestors := by decide
  have hat := (@raise_takes_nearest _ _ Builtin.javaScriptTables ⟨0, 5⟩ hw htotal).2 bracket rfl
  obtain ⟨unit, hunit, hiff, hnearest, _⟩ :=
    hat.2 [bracket] array array.ancestors hlineage (by decide) (by decide)
  exact ⟨hw, htotal, hraise, unit, hunit, hiff.mp ⟨r, hraise⟩, hnearest r hraise⟩

end Document

end StructEdit
