import StructEdit.Proofs.Tree.WellFormed

namespace StructEdit

namespace Cursor

variable {root : Tree} {text : Text} {kinds : List String} {a b c d : Cursor}

/-- The node and its ancestors, nearest first. -/
def lineage (c : Cursor) : List Cursor := c :: c.ancestors

theorem self_mem_lineage (c : Cursor) : c ∈ c.lineage := List.mem_cons_self

theorem alongTrail_eq_append {trail : List Step} {nearer farther : List Cursor}
    (h : alongTrail trail = nearer ++ a :: farther) : a.ancestors = farther := by
  induction nearer generalizing trail with
  | nil =>
    cases trail with
    | nil => cases h
    | cons step trail =>
      cases h
      rfl
  | cons x nearer ih =>
    cases trail with
    | nil => cases h
    | cons step trail => exact ih (List.cons.inj h).2

theorem lineage_eq_append {nearer farther : List Cursor}
    (h : c.lineage = nearer ++ a :: farther) : a.ancestors = farther := by
  cases nearer with
  | nil =>
    cases h
    rfl
  | cons x nearer => exact alongTrail_eq_append (List.cons.inj h).2

theorem lineage_subset_ancestors (h : a ∈ c.ancestors) : a.lineage ⊆ c.ancestors := by
  obtain ⟨nearer, farther, hc⟩ := List.append_of_mem h
  intro b hb
  rw [lineage, alongTrail_eq_append hc] at hb
  rw [hc]
  exact List.mem_append_right nearer hb

theorem lineage_subset (h : a ∈ c.lineage) : a.lineage ⊆ c.lineage := by
  intro b hb
  rcases List.mem_cons.mp h with rfl | h
  · exact hb
  · exact List.mem_cons_of_mem c (lineage_subset_ancestors h hb)

theorem length_trail_lt (h : a ∈ c.ancestors) : a.trail.length < c.trail.length := by
  obtain ⟨node, trail⟩ := c
  change a ∈ alongTrail trail at h
  induction trail with
  | nil => exact absurd h List.not_mem_nil
  | cons step trail ih =>
    rcases List.mem_cons.mp h with rfl | h
    · exact Nat.lt_succ_self _
    · exact Nat.lt_succ_of_lt (ih h)

theorem Within.lineage (h : Within root c) : ∀ a ∈ c.lineage, Within root a := by
  intro a ha
  rcases List.mem_cons.mp ha with rfl | ha
  · exact h
  · exact h.ancestors a ha

theorem Within.root_mem_lineage (h : Within root c) : .atRoot root ∈ c.lineage := by
  induction h with
  | root => exact self_mem_lineage _
  | child _ _ ih => exact List.mem_cons_of_mem _ ih

theorem Within.parent? (h : Within root c) (hd : c.parent? = some d) : Within root d := by
  cases h with
  | root => cases hd
  | child h _ =>
    cases hd
    exact h

theorem Within.previous? (h : Within root c) (hd : c.previous? = some d) : Within root d := by
  cases h with
  | root => cases hd
  | @child parent t trail index h hi =>
    cases index with
    | zero => cases hd
    | succ index =>
      obtain ⟨u, hu, rfl⟩ := Option.map_eq_some_iff.mp hd
      exact .child h hu

/-- A node lies inside each of its ancestors. -/
theorem Within.span_le (h : Within root c) (hw : root.WellFormed text) :
    ∀ a ∈ c.ancestors, a.node.start ≤ c.node.start ∧ c.node.stop ≤ a.node.stop := by
  induction h with
  | root => exact fun a ha => absurd ha List.not_mem_nil
  | child h hi ih =>
    have hinside := (h.fits hw).inside _ (List.mem_of_getElem? hi)
    intro a ha
    rcases List.mem_cons.mp ha with rfl | ha
    · exact hinside
    · have houter := ih a ha
      exact ⟨houter.1.trans hinside.1, hinside.2.trans houter.2⟩

theorem find?_append_lineage {between : List Cursor}
    (hbetween : ∀ b ∈ between, b.hasKind kinds = false) (ha : a.hasKind kinds) :
    (between ++ a.lineage).find? (hasKind kinds) = some a := by
  have hnone : between.find? (hasKind kinds) = none :=
    List.find?_eq_none.mpr fun b hb => Bool.eq_false_iff.mp (hbetween b hb)
  rw [List.find?_append, hnone, Option.none_or, lineage, List.find?_cons_of_pos ha]

theorem enclosing?_of_lineage {between : List Cursor} (h : c.lineage = between ++ a.lineage)
    (hbetween : ∀ b ∈ between, b.hasKind kinds = false) (ha : a.hasKind kinds) :
    c.enclosing? kinds = some a := by
  change c.lineage.find? (hasKind kinds) = some a
  rw [h, find?_append_lineage hbetween ha]

theorem parent?_bind_enclosing? (c : Cursor) :
    c.parent?.bind (enclosing? kinds) = c.ancestors.find? (hasKind kinds) := by
  obtain ⟨node, trail⟩ := c
  cases trail with
  | nil => rfl
  | cons step trail => rfl

theorem pairwise_ancestors (c : Cursor) : c.ancestors.Pairwise fun a b => b ∈ a.ancestors := by
  obtain ⟨node, trail⟩ := c
  change (alongTrail trail).Pairwise _
  induction trail with
  | nil => exact List.Pairwise.nil
  | cons step trail ih => exact List.pairwise_cons.mpr ⟨fun _ hb => hb, ih⟩

/-- The proper ancestors of one of the kinds, from the inside out. -/
def outer (kinds : List String) (c : Cursor) : List Cursor := c.ancestors.filter (hasKind kinds)

theorem find?_ancestors_eq_head?_outer (c : Cursor) :
    c.ancestors.find? (hasKind kinds) = (c.outer kinds).head? :=
  (List.head?_filter ..).symm

theorem outer_eq_cons (h : c.ancestors.find? (hasKind kinds) = some a) :
    c.outer kinds = a :: a.outer kinds := by
  obtain ⟨ha, nearer, farther, hc, hnearer⟩ := List.find?_eq_some_iff_append.mp h
  have hnone : nearer.filter (hasKind kinds) = [] :=
    List.filter_eq_nil_iff.mpr fun b hb => by simpa using hnearer b hb
  rw [outer, outer, alongTrail_eq_append hc, hc, List.filter_append, hnone, List.nil_append,
    List.filter_cons_of_pos ha]

end Cursor

namespace Tree

open Cursor

variable {t parent : Tree} {trail : List Step} {c d : Cursor}

def cursors (t : Tree) : List Cursor := .atRoot t :: (Cursor.atRoot t).below

theorem mem_belowList_iff {index : Nat} {ts : List Tree} :
    d ∈ belowList parent trail index ts ↔
      ∃ (i : Nat) (u : Tree), ts[i]? = some u ∧
        (d = ⟨u, ⟨parent, index + i⟩ :: trail⟩ ∨
          d ∈ belowTree u (⟨parent, index + i⟩ :: trail)) := by
  induction ts generalizing index with
  | nil => simp [belowList]
  | cons u ts ih =>
    rw [belowList, List.cons_append, List.mem_cons, List.mem_append, ih]
    constructor
    · rintro (rfl | hd | ⟨i, v, hv, hd⟩)
      · exact ⟨0, u, rfl, .inl rfl⟩
      · exact ⟨0, u, rfl, .inr hd⟩
      · refine ⟨i + 1, v, hv, ?_⟩
        rwa [Nat.add_comm i 1, ← Nat.add_assoc]
    · rintro ⟨i, v, hv, hd⟩
      cases i with
      | zero =>
        cases hv
        rcases hd with rfl | hd
        · exact .inl rfl
        · exact .inr (.inl hd)
      | succ i =>
        refine .inr (.inr ⟨i, v, hv, ?_⟩)
        rwa [Nat.add_comm i 1, ← Nat.add_assoc] at hd

theorem mem_belowTree_iff :
    d ∈ belowTree t trail ↔
      ∃ (i : Nat) (u : Tree), t.children[i]? = some u ∧
        (d = ⟨u, ⟨t, i⟩ :: trail⟩ ∨ d ∈ belowTree u (⟨t, i⟩ :: trail)) := by
  cases t with
  | node kind span missing children =>
    rw [belowTree, mem_belowList_iff]
    simp only [Nat.zero_add]
    rfl

theorem below_subset (h : d ∈ belowTree t trail) : d.below ⊆ belowTree t trail := by
  induction t using Tree.induction generalizing trail with
  | node kind span missing children ih =>
    obtain ⟨i, u, hu, hd⟩ := mem_belowTree_iff.mp h
    intro e he
    refine mem_belowTree_iff.mpr ⟨i, u, hu, .inr ?_⟩
    rcases hd with rfl | hd
    · exact he
    · exact ih u (List.mem_of_getElem? hu) hd he

theorem mem_below_of_mem_ancestors {root : Tree} (h : Within root d) (hc : c ∈ d.ancestors) :
    d ∈ c.below := by
  induction h with
  | root => exact absurd hc List.not_mem_nil
  | @child parent u trail i _ hi ih =>
    have hchild : ⟨u, ⟨parent, i⟩ :: trail⟩ ∈ (⟨parent, trail⟩ : Cursor).below :=
      mem_belowTree_iff.mpr ⟨i, u, hi, .inl rfl⟩
    rcases List.mem_cons.mp hc with rfl | hc
    · exact hchild
    · exact below_subset (ih hc) hchild

theorem mem_cursors_of_within {root : Tree} (h : Within root c) : c ∈ root.cursors := by
  rcases List.mem_cons.mp h.root_mem_lineage with heq | hup
  · rw [← heq]
    exact List.mem_cons_self
  · exact List.mem_cons_of_mem _ (mem_below_of_mem_ancestors h hup)

end Tree

end StructEdit
