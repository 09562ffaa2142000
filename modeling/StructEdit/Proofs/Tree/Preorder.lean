import Mathlib.Data.List.Lex
import StructEdit.Proofs.Tree.Lineage

namespace StructEdit

namespace Cursor

variable {root t u parent : Tree} {trail : List Step} {index : Nat} {ts : List Tree}
  {kinds : List String} {a b c d : Cursor}

/-- The places among the children on the way down from the root. -/
def path (c : Cursor) : List Nat := (c.trail.map Step.index).reverse

/-- The order of a walk that visits every node before its children. -/
def Precedes (a b : Cursor) : Prop := List.Lex (· < ·) a.path b.path

theorem path_child (t parent : Tree) (index : Nat) (trail : List Step) :
    path ⟨t, ⟨parent, index⟩ :: trail⟩ = path ⟨parent, trail⟩ ++ [index] :=
  List.reverse_cons

theorem precedes_of_isPrefix (h : a.path ++ [index] <+: b.path) : a.Precedes b := by
  obtain ⟨rest, hrest⟩ := h
  have hlex := List.Lex.append_left (· < ·) (.nil (a := index) (l := rest)) a.path
  rw [List.append_nil, ← List.singleton_append, ← List.append_assoc, hrest] at hlex
  exact hlex

theorem precedes_of_index_lt {common : List Nat} {i j : Nat} (ha : common ++ [i] <+: a.path)
    (hb : common ++ [j] <+: b.path) (h : i < j) : a.Precedes b := by
  obtain ⟨rest, hrest⟩ := ha
  obtain ⟨rest', hrest'⟩ := hb
  rw [Precedes, ← hrest, ← hrest', List.append_assoc, List.append_assoc]
  exact List.Lex.append_left _ (.rel h) common

theorem Precedes.asymm (h : a.Precedes b) : ¬b.Precedes a :=
  (List.Lex.asymm (· < ·)).asymm a.path b.path h

theorem isPrefix_path (h : d = ⟨t, trail⟩ ∨ d ∈ belowTree t trail) :
    path ⟨t, trail⟩ <+: d.path := by
  induction t using Tree.induction generalizing trail with
  | node kind span missing children ih =>
    rcases h with rfl | h
    · exact List.prefix_refl _
    · obtain ⟨index, u, hu, hd⟩ := Tree.mem_belowTree_iff.mp h
      have hchild := ih u (List.mem_of_getElem? hu) hd
      rw [path_child] at hchild
      exact (List.prefix_append _ _).trans hchild

theorem isPrefix_path_of_child
    (h : d = ⟨u, ⟨parent, index⟩ :: trail⟩ ∨ d ∈ belowTree u (⟨parent, index⟩ :: trail)) :
    path ⟨parent, trail⟩ ++ [index] <+: d.path := by
  rw [← path_child u]
  exact isPrefix_path h

theorem precedes_of_mem_belowTree (h : d ∈ belowTree t trail) : Precedes ⟨t, trail⟩ d := by
  obtain ⟨index, u, _, hd⟩ := Tree.mem_belowTree_iff.mp h
  exact precedes_of_isPrefix (isPrefix_path_of_child hd)

theorem pairwise_belowList (h : ∀ u ∈ ts, ∀ trail, (belowTree u trail).Pairwise Precedes) :
    (belowList parent trail index ts).Pairwise Precedes := by
  induction ts generalizing index with
  | nil => exact List.Pairwise.nil
  | cons u ts ih =>
    obtain ⟨hu, hts⟩ := List.forall_mem_cons.mp h
    rw [belowList]
    refine List.pairwise_append.mpr ⟨List.pairwise_cons.mpr ⟨?_, hu _⟩, ih hts, ?_⟩
    · exact fun d => precedes_of_mem_belowTree
    · intro a ha b hb
      obtain ⟨i, v, _, hb⟩ := Tree.mem_belowList_iff.mp hb
      have hlt : index < index + 1 + i := by omega
      exact precedes_of_index_lt (isPrefix_path_of_child (List.mem_cons.mp ha))
        (isPrefix_path_of_child hb) hlt

theorem pairwise_belowTree (t : Tree) (trail : List Step) :
    (belowTree t trail).Pairwise Precedes := by
  induction t using Tree.induction generalizing trail with
  | node kind span missing children ih =>
    rw [belowTree]
    exact pairwise_belowList ih

theorem pairwise_below (c : Cursor) : c.below.Pairwise Precedes :=
  pairwise_belowTree c.node c.trail

theorem within_of_mem_belowTree (h : Within root ⟨t, trail⟩) (hd : d ∈ belowTree t trail) :
    Within root d ∧ ⟨t, trail⟩ ∈ d.ancestors := by
  induction t using Tree.induction generalizing trail with
  | node kind span missing children ih =>
    obtain ⟨index, u, hu, hd⟩ := Tree.mem_belowTree_iff.mp hd
    have hchild := Within.child h hu
    rcases hd with rfl | hd
    · exact ⟨hchild, List.mem_cons_self⟩
    · obtain ⟨hwithin, hup⟩ := ih u (List.mem_of_getElem? hu) hchild hd
      exact ⟨hwithin, lineage_subset_ancestors hup (List.mem_cons_of_mem _ List.mem_cons_self)⟩

theorem Within.mem_below_iff (h : Within root c) :
    d ∈ c.below ↔ Within root d ∧ c ∈ d.ancestors :=
  ⟨within_of_mem_belowTree h, fun hd => Tree.mem_below_of_mem_ancestors hd.1 hd.2⟩

theorem Within.precedes (h : Within root d) (hc : c ∈ d.ancestors) : c.Precedes d :=
  precedes_of_mem_belowTree (Tree.mem_below_of_mem_ancestors h hc)

theorem nestedList?_eq_find?
    (h : ∀ u ∈ ts, ∀ trail,
      nestedTree? kinds u trail = (belowTree u trail).find? (hasKind kinds)) :
    nestedList? kinds parent trail index ts =
      (belowList parent trail index ts).find? (hasKind kinds) := by
  induction ts generalizing index with
  | nil => rfl
  | cons u ts ih =>
    obtain ⟨hu, hts⟩ := List.forall_mem_cons.mp h
    have hchild : hasKind kinds ⟨u, ⟨parent, index⟩ :: trail⟩ = u.hasKind kinds := rfl
    rw [nestedList?, belowList, List.cons_append, List.find?_cons, hchild]
    cases u.hasKind kinds with
    | true => rfl
    | false =>
      rw [if_neg Bool.false_ne_true, List.find?_append, ← hu, ← ih hts]
      cases nestedTree? kinds u (⟨parent, index⟩ :: trail) with
      | none => rfl
      | some found => rfl

theorem nestedTree?_eq_find? (t : Tree) (trail : List Step) :
    nestedTree? kinds t trail = (belowTree t trail).find? (hasKind kinds) := by
  induction t using Tree.induction generalizing trail with
  | node kind span missing children ih =>
    rw [nestedTree?, belowTree]
    exact nestedList?_eq_find? ih

theorem nested?_eq_find?_below (c : Cursor) : c.nested? kinds = c.below.find? (hasKind kinds) :=
  nestedTree?_eq_find? c.node c.trail

theorem nested?_eq_some (h : Within root c) (hd : c.nested? kinds = some d) :
    Within root d ∧ d.hasKind kinds ∧ ∃ between, d.ancestors = between ++ c.lineage ∧
      ∀ b ∈ between, b.hasKind kinds = false := by
  rw [nested?_eq_find?_below] at hd
  obtain ⟨hkind, earlier, later, hbelow, hearlier⟩ := List.find?_eq_some_iff_append.mp hd
  obtain ⟨hwithin, hup⟩ := h.mem_below_iff.mp (List.mem_of_find?_eq_some hd)
  obtain ⟨between, farther, hancestors⟩ := List.append_of_mem hup
  have hfarther : c.ancestors = farther := alongTrail_eq_append hancestors
  refine ⟨hwithin, hkind, between, by rw [hancestors, lineage, hfarther], ?_⟩
  intro b hb
  have hbup : b ∈ d.ancestors := by
    rw [hancestors]
    exact List.mem_append_left _ hb
  have hcup : c ∈ b.ancestors := by
    obtain ⟨nearer, rest, rfl⟩ := List.append_of_mem hb
    rw [List.append_assoc, List.cons_append] at hancestors
    have hbancestors : b.ancestors = rest ++ c :: farther := alongTrail_eq_append hancestors
    rw [hbancestors]
    exact List.mem_append_right rest List.mem_cons_self
  have hbprecedes := hwithin.precedes hbup
  have hbmem := h.mem_below_iff.mpr ⟨hwithin.ancestors b hbup, hcup⟩
  rw [hbelow, List.mem_append, List.mem_cons] at hbmem
  have hpairwise := pairwise_below c
  rw [hbelow] at hpairwise
  rcases hbmem with hbearlier | rfl | hblater
  · simpa using hearlier b hbearlier
  · exact absurd hbprecedes hbprecedes.asymm
  · have hlater := (List.pairwise_cons.mp (List.pairwise_append.mp hpairwise).2.1).1 b hblater
    exact absurd hbprecedes hlater.asymm

/-- The search downwards takes the first node of the kinds in preorder. -/
theorem nested?_finds_first_in_preorder (h : Within root c) (kinds : List String) :
    (∀ d, d ∈ c.below ↔ Within root d ∧ c ∈ d.ancestors) ∧ c.below.Pairwise Precedes ∧
    c.nested? kinds = c.below.find? (hasKind kinds) ∧
    (c.nested? kinds = none ↔ ∀ d ∈ c.below, d.hasKind kinds = false) ∧
    ∀ d, c.nested? kinds = some d →
      (∃ between, d.ancestors = between ++ c.lineage ∧ ∀ b ∈ between, b.hasKind kinds = false) ∧
      (c.hasKind kinds → ∃ up, d.parent? = some up ∧ up.enclosing? kinds = some c) := by
  refine ⟨fun d => h.mem_below_iff, pairwise_below c, nested?_eq_find?_below c, ?_, ?_⟩
  · rw [nested?_eq_find?_below, List.find?_eq_none]
    simp only [Bool.not_eq_true]
  · intro d hd
    obtain ⟨_, _, between, hancestors, hbetween⟩ := nested?_eq_some h hd
    refine ⟨⟨between, hancestors, hbetween⟩, ?_⟩
    intro hc
    apply Option.bind_eq_some_iff.mp
    rw [parent?_bind_enclosing?, hancestors, find?_append_lineage hbetween hc]

theorem nested?_finds_deeper_array :
    let array (n : Nat) : Tree := .node "array" ⟨n, n + 3⟩ false [.node "[" ⟨n, n + 1⟩ false [],
      .node "number" ⟨n + 1, n + 2⟩ false [], .node "]" ⟨n + 2, n + 3⟩ false []]
    let pair : Tree := .node "pair" ⟨4, 10⟩ false
      [.node "property_identifier" ⟨4, 5⟩ false [], .node ":" ⟨5, 6⟩ false [], array 7]
    let object : Tree := .node "object" ⟨2, 12⟩ false
      [.node "\x7b" ⟨2, 3⟩ false [], pair, .node "\x7d" ⟨11, 12⟩ false []]
    let arguments : Tree := .node "arguments" ⟨1, 18⟩ false [.node "(" ⟨1, 2⟩ false [], object,
      .node "," ⟨12, 13⟩ false [], array 14, .node ")" ⟨17, 18⟩ false []]
    let call : Tree :=
      .node "call_expression" ⟨0, 18⟩ false [.node "identifier" ⟨0, 1⟩ false [], arguments]
    let program : Tree := .node "program" ⟨0, 18⟩ false [call]
    let c : Cursor := ⟨call, [⟨program, 0⟩]⟩
    let d : Cursor :=
      ⟨array 7, [⟨pair, 2⟩, ⟨object, 1⟩, ⟨arguments, 1⟩, ⟨call, 1⟩, ⟨program, 0⟩]⟩
    let kinds := ["array", "call_expression"]
    Within program c ∧ c.hasKind kinds ∧ c.nested? kinds = some d ∧
      c.below.find? (hasKind kinds) = some d ∧ c ∈ d.ancestors ∧
      (∃ between, d.ancestors = between ++ c.lineage ∧ ∀ b ∈ between, b.hasKind kinds = false) ∧
      ∃ up, d.parent? = some up ∧ up.enclosing? kinds = some c := by
  intro array pair object arguments call program c d kinds
  have hc : Within program c := .child .root rfl
  have hd : c.nested? kinds = some d := rfl
  obtain ⟨hmem, _, hfirst, _, hup⟩ := nested?_finds_first_in_preorder hc kinds
  rw [hd] at hfirst
  have hbelow := (hmem d).mp (List.mem_of_find?_eq_some hfirst.symm)
  obtain ⟨hbetween, hback⟩ := hup d hd
  exact ⟨hc, rfl, hd, hfirst.symm, hbelow.2, hbetween, hback rfl⟩

end Cursor

namespace Tree

theorem mem_cursors_iff {t : Tree} {c : Cursor} : c ∈ t.cursors ↔ Cursor.Within t c := by
  constructor
  · intro h
    rcases List.mem_cons.mp h with rfl | h
    · exact .root
    · exact (Cursor.Within.root.mem_below_iff.mp h).1
  · exact mem_cursors_of_within

theorem pairwise_cursors (t : Tree) : t.cursors.Pairwise Cursor.Precedes := by
  refine List.pairwise_cons.mpr ⟨?_, Cursor.pairwise_below _⟩
  exact fun d => Cursor.precedes_of_mem_belowTree

theorem map_node_belowList {parent : Tree} {trail : List Step} {index : Nat} {ts : List Tree}
    (h : ∀ u ∈ ts, ∀ trail,
      (Cursor.belowTree u trail).map Cursor.node = u.children.flatMap preorder) :
    (Cursor.belowList parent trail index ts).map Cursor.node = ts.flatMap preorder := by
  induction ts generalizing index with
  | nil => rfl
  | cons u ts ih =>
    obtain ⟨hu, hts⟩ := List.forall_mem_cons.mp h
    rw [Cursor.belowList, List.map_append, List.map_cons, hu, ih hts, List.flatMap_cons,
      preorder_eq u]

theorem map_node_belowTree (t : Tree) (trail : List Step) :
    (Cursor.belowTree t trail).map Cursor.node = t.children.flatMap preorder := by
  induction t using Tree.induction generalizing trail with
  | node kind span missing children ih =>
    rw [Cursor.belowTree]
    exact map_node_belowList ih

theorem map_node_cursors (t : Tree) : t.cursors.map Cursor.node = t.preorder := by
  rw [preorder_eq, ← map_node_belowTree t []]
  rfl

end Tree

end StructEdit
