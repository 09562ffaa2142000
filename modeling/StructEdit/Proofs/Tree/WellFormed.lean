import StructEdit.Proofs.Text.Boundary
import StructEdit.Tree.Lookup

namespace StructEdit

namespace Tree

@[elab_as_elim]
theorem induction {P : Tree → Prop}
    (node : ∀ kind span missing children, (∀ t ∈ children, P t) →
      P (.node kind span missing children)) : ∀ t, P t
  | .node kind span missing children =>
    node kind span missing children fun t _ => induction node t

theorem preorder_eq (t : Tree) : t.preorder = t :: t.children.flatMap preorder := by
  cases t with
  | node => rw [preorder, preorderAll_eq, children]

theorem self_mem_preorder (t : Tree) : t ∈ t.preorder := by
  rw [preorder_eq]
  exact List.mem_cons_self

theorem mem_preorder_of_mem_children {t u v : Tree} (hu : u ∈ t.preorder)
    (hv : v ∈ u.children) :
    v ∈ t.preorder := by
  induction t using Tree.induction with
  | node kind span missing children ih =>
    rw [preorder_eq, List.mem_cons, List.mem_flatMap] at hu ⊢
    rcases hu with rfl | ⟨w, hw, huw⟩
    · exact .inr ⟨v, hv, self_mem_preorder v⟩
    · exact .inr ⟨w, hw, ih w hw huw⟩

/-- The range ends at boundaries of the text and holds the children one after the other. -/
structure Fits (text : Text) (t : Tree) : Prop where
  start_le_stop : t.start ≤ t.stop
  start_boundary : text.IsBoundary t.start
  stop_boundary : text.IsBoundary t.stop
  inside : ∀ child ∈ t.children, t.start ≤ child.start ∧ child.stop ≤ t.stop
  ordered : t.children.Pairwise fun a b => a.stop ≤ b.start

instance (text : Text) (t : Tree) : Decidable (t.Fits text) :=
  decidable_of_iff
    (t.start ≤ t.stop ∧ text.IsBoundary t.start ∧ text.IsBoundary t.stop ∧
      (∀ child ∈ t.children, t.start ≤ child.start ∧ child.stop ≤ t.stop) ∧
      t.children.Pairwise fun a b => a.stop ≤ b.start)
    ⟨fun ⟨h₁, h₂, h₃, h₄, h₅⟩ => ⟨h₁, h₂, h₃, h₄, h₅⟩,
      fun ⟨h₁, h₂, h₃, h₄, h₅⟩ => ⟨h₁, h₂, h₃, h₄, h₅⟩⟩

def WellFormed (text : Text) (t : Tree) : Prop := ∀ u ∈ t.preorder, u.Fits text

instance (text : Text) (t : Tree) : Decidable (t.WellFormed text) :=
  inferInstanceAs (Decidable (∀ u ∈ t.preorder, u.Fits text))

end Tree

namespace Cursor

/-- The trail of the cursor leads down from the root by children. -/
inductive Within (root : Tree) : Cursor → Prop where
  | root : Within root (.atRoot root)
  | child {parent t : Tree} {trail : List Step} {index : Nat} :
    Within root ⟨parent, trail⟩ → parent.children[index]? = some t →
      Within root ⟨t, ⟨parent, index⟩ :: trail⟩

variable {root : Tree} {c : Cursor}

theorem Within.mem_preorder (h : Within root c) : c.node ∈ root.preorder := by
  induction h with
  | root => exact root.self_mem_preorder
  | child _ hi ih => exact Tree.mem_preorder_of_mem_children ih (List.mem_of_getElem? hi)

theorem Within.ancestors (h : Within root c) : ∀ a ∈ c.ancestors, Within root a := by
  induction h with
  | root => exact fun a ha => absurd ha List.not_mem_nil
  | child h _ ih =>
    intro a ha
    rcases List.mem_cons.mp ha with rfl | ha
    · exact h
    · exact ih a ha

theorem Within.enclosing? {kinds : List String} {found : Cursor} (h : Within root c)
    (hf : c.enclosing? kinds = some found) : Within root found := by
  rcases List.mem_cons.mp (List.mem_of_find?_eq_some hf) with rfl | hm
  · exact h
  · exact h.ancestors found hm

theorem Within.fits {text : Text} (h : Within root c) (hw : root.WellFormed text) :
    c.node.Fits text := hw _ h.mem_preorder

theorem Within.child_fits {text : Text} {t : Tree} (h : Within root c)
    (hw : root.WellFormed text)
    (ht : t ∈ c.node.children) : t.Fits text :=
  hw t (Tree.mem_preorder_of_mem_children h.mem_preorder ht)

end Cursor

namespace Tree

variable {root : Tree} {text : Text} {q : BytePoint}

mutual

theorem descend_within : (t : Tree) → (trail : List Step) → Cursor.Within root ⟨t, trail⟩ →
    Cursor.Within root (descend text q t trail)
  | .node _ _ _ children, _, h => by
    rw [descend]
    exact descendList_within children _ _ 0 h rfl

theorem descendList_within : (ts : List Tree) → (parent : Tree) → (trail : List Step) →
    (index : Nat) → Cursor.Within root ⟨parent, trail⟩ → parent.children.drop index = ts →
    Cursor.Within root (descendList text q parent trail index ts)
  | [], _, _, _, h, _ => by
    rw [descendList]
    exact h
  | t :: rest, parent, trail, index, h, hd => by
    have hi : parent.children[index]? = some t := by
      rw [← List.head?_drop, hd, List.head?_cons]
    have hrest : parent.children.drop (index + 1) = rest := by
      rw [← List.tail_drop, hd, List.tail_cons]
    rw [descendList]
    split
    · exact descendList_within rest parent trail (index + 1) h hrest
    · split
      · exact h
      · exact descend_within t _ (.child h hi)

end

theorem deepestAt_within (text : Text) (t : Tree) (q : BytePoint) :
    Cursor.Within t (t.deepestAt text q) :=
  descend_within t [] .root

end Tree

end StructEdit
