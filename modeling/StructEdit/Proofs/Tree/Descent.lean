import StructEdit.Proofs.Tree.Lineage

namespace StructEdit

namespace Tree

open Cursor

variable {text : Text} {q : BytePoint} {root t parent : Tree} {trail : List Step}

def IsEntered (text : Text) (q : BytePoint) (t : Tree) : Prop :=
  t.endsBefore text q = false ∧ text.bytePointAt t.start ≤ q

/-- The node starts at the place or before it, and it ends after it. -/
def Holds (text : Text) (q : BytePoint) (t : Tree) : Prop :=
  text.bytePointAt t.start ≤ q ∧ q < text.bytePointAt t.stop

instance (text : Text) (q : BytePoint) (t : Tree) : Decidable (t.Holds text q) :=
  inferInstanceAs (Decidable (_ ∧ _))

def IsEmptyAt (text : Text) (q : BytePoint) (t : Tree) : Prop :=
  text.bytePointAt t.start = q ∧ text.bytePointAt t.stop = q

instance (text : Text) (q : BytePoint) (t : Tree) : Decidable (t.IsEmptyAt text q) :=
  inferInstanceAs (Decidable (_ ∧ _))

theorem endsBefore_of_stop_le (hstop : text.bytePointAt t.stop ≤ q)
    (hempty : ¬t.IsEmptyAt text q) : t.endsBefore text q := by
  rw [endsBefore]
  rcases lt_or_eq_of_le hstop with hlt | heq
  · simp [hlt]
  · have hne : text.bytePointAt t.start ≠ q := fun hstart => hempty ⟨hstart, heq⟩
    simp [heq, hne]

/-- The search goes into the nodes that hold the place and into empty nodes at it. -/
theorem isEntered_iff : t.IsEntered text q ↔ t.Holds text q ∨ t.IsEmptyAt text q := by
  constructor
  · intro ⟨hends, hstart⟩
    by_cases hempty : t.IsEmptyAt text q
    · exact .inr hempty
    · refine .inl ⟨hstart, lt_of_not_ge fun hstop => ?_⟩
      rw [endsBefore_of_stop_le hstop hempty] at hends
      cases hends
  · rintro (⟨hstart, hstop⟩ | ⟨hstart, hstop⟩)
    · refine ⟨?_, hstart⟩
      simp [endsBefore, not_lt_of_gt hstop, ne_of_gt hstop]
    · refine ⟨?_, le_of_eq hstart⟩
      simp [endsBefore, hstart, hstop]

mutual

theorem descend_lineage : (t : Tree) → (trail : List Step) →
    ∃ between, (descend text q t trail).lineage = between ++ lineage ⟨t, trail⟩ ∧
      ∀ b ∈ between, b.node.IsEntered text q
  | .node _ _ _ children, trail => by
    rw [descend]
    exact descendList_lineage children _ trail 0

theorem descendList_lineage : (ts : List Tree) → (parent : Tree) → (trail : List Step) →
    (index : Nat) →
    ∃ between, (descendList text q parent trail index ts).lineage =
        between ++ lineage ⟨parent, trail⟩ ∧ ∀ b ∈ between, b.node.IsEntered text q
  | [], _, _, _ => by
    rw [descendList]
    exact ⟨[], rfl, fun b hb => absurd hb List.not_mem_nil⟩
  | t :: rest, parent, trail, index => by
    rw [descendList]
    split
    · exact descendList_lineage rest parent trail (index + 1)
    · next hends =>
      split
      · exact ⟨[], rfl, fun b hb => absurd hb List.not_mem_nil⟩
      · next hstart =>
        have hentered : t.IsEntered text q := ⟨Bool.eq_false_iff.mpr hends, not_lt.mp hstart⟩
        obtain ⟨between, hlineage, hbetween⟩ := descend_lineage t (⟨parent, index⟩ :: trail)
        refine ⟨between ++ [⟨t, ⟨parent, index⟩ :: trail⟩], ?_, ?_⟩
        · rw [hlineage, List.append_assoc]
          rfl
        · intro b hb
          rcases List.mem_append.mp hb with hb | hb
          · exact hbetween b hb
          · rw [List.mem_singleton.mp hb]
            exact hentered

end

theorem descendList_of_child {earlier rest : List Tree} {index : Nat}
    (hearlier : ∀ b ∈ earlier, b.endsBefore text q) (ht : t.IsEntered text q) :
    descendList text q parent trail index (earlier ++ t :: rest) =
      descend text q t (⟨parent, index + earlier.length⟩ :: trail) := by
  induction earlier generalizing index with
  | nil =>
    rw [List.nil_append, descendList, ht.1, if_neg Bool.false_ne_true, if_neg (not_lt.mpr ht.2)]
    rfl
  | cons b earlier ih =>
    obtain ⟨hb, hearlier⟩ := List.forall_mem_cons.mp hearlier
    rw [List.cons_append, descendList, if_pos hb, ih hearlier, List.length_cons,
      Nat.add_right_comm, Nat.add_assoc]

theorem descend_of_child {earlier rest : List Tree} (trail : List Step)
    (hchildren : parent.children = earlier ++ t :: rest)
    (hearlier : ∀ b ∈ earlier, b.endsBefore text q) (ht : t.IsEntered text q) :
    descend text q parent trail = descend text q t (⟨parent, earlier.length⟩ :: trail) := by
  cases parent with
  | node kind span missing children =>
    change children = _ at hchildren
    subst hchildren
    rw [descend, descendList_of_child hearlier ht, Nat.zero_add]

theorem Fits.holds_of_child {child : Tree} (h : t.Fits text) (hmem : child ∈ t.children)
    (hchild : child.Fits text) (hq : child.Holds text q) : t.Holds text q := by
  obtain ⟨hstart, hstop⟩ := h.inside child hmem
  exact ⟨(h.start_boundary.bytePointAt_le hchild.start_boundary hstart).trans hq.1,
    lt_of_lt_of_le hq.2 (hchild.stop_boundary.bytePointAt_le h.stop_boundary hstop)⟩

theorem endsBefore_of_earlier {index : Nat} (hw : root.WellFormed text)
    (h : Within root ⟨parent, trail⟩) (hi : parent.children[index]? = some t)
    (hstart : text.bytePointAt t.start ≤ q)
    (hempty : ∀ z, Within root z → z.node.IsEmptyAt text q →
      ⟨t, ⟨parent, index⟩ :: trail⟩ ∈ z.lineage) :
    ∀ b ∈ parent.children.take index, b.endsBefore text q := by
  intro b hb
  obtain ⟨j, hj⟩ := List.mem_iff_getElem?.mp hb
  obtain ⟨hlt, hj⟩ : j < index ∧ parent.children[j]? = some b := by
    rw [List.getElem?_take] at hj
    split at hj
    · next hlt => exact ⟨hlt, hj⟩
    · cases hj
  have hordered : b.stop ≤ t.start := by
    obtain ⟨hj', rfl⟩ := List.getElem?_eq_some_iff.mp hj
    obtain ⟨hi', rfl⟩ := List.getElem?_eq_some_iff.mp hi
    exact List.pairwise_iff_getElem.mp (h.fits hw).ordered j index hj' hi' hlt
  have hbfits := h.child_fits hw (List.mem_of_getElem? hj)
  have htfits := h.child_fits hw (List.mem_of_getElem? hi)
  apply endsBefore_of_stop_le
    ((hbfits.stop_boundary.bytePointAt_le htfits.start_boundary hordered).trans hstart)
  intro hbempty
  rcases List.mem_cons.mp (hempty _ (.child h hj) hbempty) with heq | hmem
  · cases heq
    exact absurd hlt (Nat.lt_irrefl _)
  · exact absurd (length_trail_lt hmem) (Nat.lt_irrefl _)

/-- The search for a place leads to a node that holds it and all empty nodes at it. -/
theorem descend_eq_of_within {c : Cursor} (hw : root.WellFormed text) (h : Within root c)
    (hc : c.node.Holds text q)
    (hempty : ∀ z, Within root z → z.node.IsEmptyAt text q → c ∈ z.lineage) :
    descend text q root [] = descend text q c.node c.trail := by
  induction h with
  | root => rfl
  | @child parent t trail index h hi ih =>
    have hmem := List.mem_of_getElem? hi
    have hup : (⟨parent, trail⟩ : Cursor) ∈ lineage ⟨t, ⟨parent, index⟩ :: trail⟩ :=
      List.mem_cons_of_mem _ List.mem_cons_self
    -- in the parent all children before the one that holds the place are passed over
    have hparent := ih ((h.fits hw).holds_of_child hmem (h.child_fits hw hmem) hc)
      fun z hz hzempty => lineage_subset (hempty z hz hzempty) hup
    obtain ⟨hindex, ht⟩ := List.getElem?_eq_some_iff.mp hi
    have hsplit : parent.children =
        parent.children.take index ++ t :: parent.children.drop (index + 1) := by
      rw [← ht, List.getElem_cons_drop, List.take_append_drop]
    have hchild := descend_of_child trail hsplit (endsBefore_of_earlier hw h hi hc.1 hempty)
      (isEntered_iff.mpr (.inl hc))
    rw [List.length_take_of_le (Nat.le_of_lt hindex)] at hchild
    exact hparent.trans hchild

/-- Above the end of a search are the root and the nodes that hold the place. -/
theorem mem_lineage_descend_iff {c : Cursor} (hw : root.WellFormed text) (h : Within root c)
    (hempty : ∀ z, Within root z → ¬z.node.IsEmptyAt text q) :
    c ∈ (descend text q root []).lineage ↔ c = .atRoot root ∨ c.node.Holds text q := by
  constructor
  · intro hc
    obtain ⟨between, hlineage, hbetween⟩ := @descend_lineage text q root []
    rw [hlineage] at hc
    rcases List.mem_append.mp hc with hc | hc
    · rcases isEntered_iff.mp (hbetween c hc) with hholds | hcempty
      · exact .inr hholds
      · exact absurd hcempty (hempty c h)
    · exact .inl (List.mem_singleton.mp hc)
  · rintro (rfl | hc)
    · obtain ⟨between, hlineage, _⟩ := @descend_lineage text q root []
      rw [hlineage]
      exact List.mem_append_right between (self_mem_lineage _)
    · obtain ⟨between, hlineage, _⟩ := @descend_lineage text q c.node c.trail
      rw [descend_eq_of_within hw h hc fun z hz hz' => absurd hz' (hempty z hz), hlineage]
      exact List.mem_append_right between c.self_mem_lineage

theorem descend_ne_parent (step : Step) :
    descend text q t (step :: trail) ≠ ⟨parent, trail⟩ := by
  intro h
  obtain ⟨between, hlineage, _⟩ := @descend_lineage text q t (step :: trail)
  have hmem : ⟨t, step :: trail⟩ ∈ lineage ⟨parent, trail⟩ := by
    rw [← h, hlineage]
    exact List.mem_append_right between (self_mem_lineage _)
  rcases List.mem_cons.mp hmem with heq | hmem
  · have hlength := congrArg (fun c : Cursor => c.trail.length) heq
    exact absurd hlength (Nat.succ_ne_self _)
  · exact absurd (length_trail_lt hmem) (Nat.not_lt.mpr (Nat.le_succ _))

theorem descendList_eq_parent_iff {index : Nat} {ts : List Tree} (hfits : ∀ t ∈ ts, t.Fits text)
    (hordered : ts.Pairwise fun a b => a.stop ≤ b.start) :
    descendList text q parent trail index ts = ⟨parent, trail⟩ ↔
      ∀ t ∈ ts, ¬t.IsEntered text q := by
  induction ts generalizing index with
  | nil => exact ⟨fun _ t ht => absurd ht List.not_mem_nil, fun _ => rfl⟩
  | cons t ts ih =>
    obtain ⟨ht, hts⟩ := List.forall_mem_cons.mp hfits
    obtain ⟨hafter, hordered⟩ := List.pairwise_cons.mp hordered
    rw [descendList, List.forall_mem_cons]
    split
    · next hends =>
      rw [ih hts hordered]
      have hpassed : ¬t.IsEntered text q := fun h => Bool.eq_false_iff.mp h.1 hends
      exact ⟨fun h => ⟨hpassed, h⟩, fun h => h.2⟩
    · next hends =>
      split
      · next hstart =>
        refine ⟨fun _ => ⟨fun h => not_lt_of_ge h.2 hstart, ?_⟩, fun _ => rfl⟩
        intro b hb h
        have hle : t.start ≤ b.start := ht.start_le_stop.trans (hafter b hb)
        have hplace := ht.start_boundary.bytePointAt_le (hts b hb).start_boundary hle
        exact not_lt_of_ge (hplace.trans h.2) hstart
      · next hstart =>
        refine ⟨fun h => absurd h (descend_ne_parent _), fun h => absurd ?_ h.1⟩
        exact ⟨Bool.eq_false_iff.mpr hends, not_lt.mp hstart⟩

theorem descend_eq_root_iff (hw : root.WellFormed text) :
    descend text q root [] = .atRoot root ↔
      ∀ t ∈ root.children, ¬(t.Holds text q ∨ t.IsEmptyAt text q) := by
  have hfits : ∀ t ∈ root.children, t.Fits text :=
    fun t ht => Within.root.child_fits hw ht
  have hordered := (Within.root.fits hw).ordered
  simp only [← isEntered_iff]
  cases root with
  | node kind span missing children =>
    rw [descend]
    exact descendList_eq_parent_iff hfits hordered

theorem deepestAt_eq_descend (hrow : q.row < lookupLimit) (hcolumn : q.column < lookupLimit) :
    root.deepestAt text q = descend text q root [] := by
  rw [deepestAt, Nat.mod_eq_of_lt hrow, Nat.mod_eq_of_lt hcolumn]

/-- In a text with less than 2³² bytes no place is looked up as another one. -/
theorem deepestAt_bytePointAt {n : Nat} (h : text.size .utf8 < lookupLimit) :
    root.deepestAt text (text.bytePointAt n) = descend text (text.bytePointAt n) root [] := by
  obtain ⟨hrow, hcolumn⟩ := text.bytePointAt_le_size n
  exact deepestAt_eq_descend (lt_of_le_of_lt hrow h) (lt_of_le_of_lt hcolumn h)

end Tree

end StructEdit
