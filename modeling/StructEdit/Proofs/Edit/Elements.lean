import StructEdit.Proofs.Command
import StructEdit.Proofs.Edit.Insertion

namespace StructEdit

theorem Text.IsBoundary.le_size_firstReaching {t : Text} {n : Nat} {p : Point} {q : BytePoint}
    (hn : t.IsBoundary n) (hq : t.toBytePoint p = .ok q) (h : t.bytePointAt n ≤ q) :
    n ≤ (t.firstReaching p).size .utf8 := by
  have hn' := upTo_isPrefix .utf8 t n
  rcases t.le_endPoint_firstReaching p with hreached | hall
  · have hp := t.firstReaching_isPrefix p
    have hle : t.bytePointAt n ≤ endLocation .utf8 (t.firstReaching p) :=
      h.trans ((toBytePoint_le_iff hq hp).mpr hreached)
    by_contra hlt
    apply not_lt_of_ge hle
    apply endLocation_lt_of_size_lt (e := .utf8) .utf8 hp hn'
    rw [hn]
    exact Nat.lt_of_not_le hlt
  · rw [hall, ← hn]
    exact size_le_of_isInfix .utf8 hn'.isInfix

/-- The elements stand one after the other between an opening and a closing child. -/
structure Delimited (text : Text) (opening : Tree) (elements : List Tree) (closing : Tree) :
    Prop where
  fits_opening : opening.Fits text
  fits : ∀ m ∈ elements, m.Fits text
  fits_closing : closing.Fits text
  opening_le : ∀ m ∈ elements, opening.stop ≤ m.start
  le_closing : ∀ m ∈ elements, m.stop ≤ closing.start
  opening_le_closing : opening.stop ≤ closing.start
  ordered : elements.Pairwise fun a b => a.stop ≤ b.start

theorem Cursor.Within.delimited {root opening closing : Tree} {text : Text} {c : Cursor}
    {elements : List Tree} (h : Within root c) (hw : root.WellFormed text)
    (hchildren : c.node.children = opening :: (elements ++ [closing])) :
    Delimited text opening elements closing := by
  have hfits : ∀ t ∈ c.node.children, t.Fits text := fun t ht => h.child_fits hw ht
  have hordered := (h.fits hw).ordered
  rw [hchildren] at hfits hordered
  obtain ⟨hopening, hfits⟩ := List.forall_mem_cons.mp hfits
  obtain ⟨hafter, hordered⟩ := List.pairwise_cons.mp hordered
  obtain ⟨hordered, _, hbefore⟩ := List.pairwise_append.mp hordered
  have hlast : closing ∈ elements ++ [closing] := List.mem_append_right _ List.mem_cons_self
  exact {
    fits_opening := hopening
    fits := fun m hm => hfits m (List.mem_append_left _ hm)
    fits_closing := hfits closing hlast
    opening_le := fun m hm => hafter m (List.mem_append_left _ hm)
    le_closing := fun m hm => hbefore m hm closing List.mem_cons_self
    opening_le_closing := hafter closing hlast
    ordered := hordered }

theorem Delimited.before_or_after {text : Text} {opening closing b m : Tree}
    {elements : List Tree} (h : Delimited text opening elements closing) (hb : b ∈ elements)
    (hm : m ∈ elements) : m.stop ≤ b.start ∨ m = b ∨ b.stop ≤ m.start := by
  obtain ⟨earlier, later, rfl⟩ := List.append_of_mem hb
  obtain ⟨_, hlater, hearlier⟩ := List.pairwise_append.mp h.ordered
  rcases List.mem_append.mp hm with hm | hm
  · exact .inl (hearlier m hm b List.mem_cons_self)
  · rcases List.mem_cons.mp hm with heq | hm
    · exact .inr (.inl heq)
    · exact .inr (.inr (List.rel_of_pairwise_cons hlater hm))

theorem Delimited.start_outside {text : Text} {opening closing b m : Tree}
    {elements : List Tree} (h : Delimited text opening elements closing) (hb : b ∈ elements)
    (hm : m ∈ elements) : b.start ≤ m.start ∨ m.stop ≤ b.start := by
  rcases h.before_or_after hb hm with hbefore | rfl | hafter
  · exact .inr hbefore
  · exact .inl (Nat.le_refl _)
  · exact .inl ((h.fits b hb).start_le_stop.trans hafter)

namespace Document

variable {doc : Document} {tables : Tables} {p point : Point} {q : BytePoint} {c : Cursor}
  {opening closing b m : Tree} {elements earlier later : List Tree}
  {left right openText closeText : Text}

theorem snap_of_first (htwo : 2 ≤ elements.length) (hq : doc.text.toBytePoint p = .ok q)
    (helements : elements = earlier ++ m :: later)
    (hearlier : ∀ b ∈ earlier, doc.text.bytePointAt b.stop ≤ q)
    (hm : q < doc.text.bytePointAt m.stop) :
    doc.snap elements p = .ok (doc.startPoint m) := by
  have hfind : elements.find? (fun t => q < doc.text.bytePointAt t.stop) = some m := by
    refine List.find?_eq_some_iff_append.mpr ⟨decide_eq_true hm, earlier, later, helements, ?_⟩
    intro b hb
    simpa using hearlier b hb
  rw [snap, if_neg (Nat.not_lt.mpr htwo), hq, ok_bind, hfind]
  rfl

theorem snap_of_none (htwo : 2 ≤ elements.length) (hq : doc.text.toBytePoint p = .ok q)
    (hnone : ∀ b ∈ elements, doc.text.bytePointAt b.stop ≤ q) :
    doc.snap elements p = .ok p := by
  have hfind : elements.find? (fun t => q < doc.text.bytePointAt t.stop) = none := by
    refine List.find?_eq_none.mpr fun b hb => ?_
    simpa using hnone b hb
  rw [snap, if_neg (Nat.not_lt.mpr htwo), hq, ok_bind, hfind]
  rfl

theorem exists_first_or_none (doc : Document) (q : BytePoint) (elements : List Tree) :
    (∃ earlier m later, elements = earlier ++ m :: later ∧
      (∀ b ∈ earlier, doc.text.bytePointAt b.stop ≤ q) ∧ q < doc.text.bytePointAt m.stop) ∨
    ∀ b ∈ elements, doc.text.bytePointAt b.stop ≤ q := by
  cases hfind : elements.find? (fun t => q < doc.text.bytePointAt t.stop) with
  | none =>
    right
    intro b hb
    simpa using List.find?_eq_none.mp hfind b hb
  | some m =>
    obtain ⟨hm, earlier, later, helements, hearlier⟩ := List.find?_eq_some_iff_append.mp hfind
    refine .inl ⟨earlier, m, later, helements, ?_, of_decide_eq_true hm⟩
    intro b hb
    simpa using hearlier b hb

theorem size_firstReaching_startPoint (hm : m.Fits doc.text) :
    (doc.text.firstReaching (doc.startPoint m)).size .utf8 = m.start := by
  obtain ⟨s, r, htext, hs⟩ := hm.start_boundary.exists_append
  rw [startPoint_eq htext hs, htext, Text.firstReaching_endPoint, hs]

theorem lt_endPoint_iff (hsize : doc.text.size .utf8 < addressLimit)
    (hq : doc.text.toBytePoint p = .ok q) (hm : m.Fits doc.text) :
    q < doc.text.bytePointAt m.stop ↔ doc.text.toPoint q < doc.endPoint m := by
  obtain ⟨s, r, htext, hs⟩ := hm.stop_boundary.exists_append
  have hplace : doc.text.bytePointAt m.stop = Text.endLocation .utf8 s := by
    rw [htext, ← hs, Text.bytePointAt_append]
  rw [hplace, endPoint_eq htext hs]
  exact Text.toBytePoint_lt_iff hsize hq ⟨r, htext.symm⟩

/-- The point is inside a surrogate pair, and the element ends where the pair does. -/
def EndsWithPairAt (doc : Document) (m : Tree) (p : Point) : Prop :=
  ∃ stop, doc.text.InsideAt p stop ∧ doc.endPoint m = ⟨p.row, stop⟩

theorem toPoint_eq_or_inside (hq : doc.text.toBytePoint p = .ok q) :
    doc.text.toPoint q = p ∨
      ∃ stop, doc.text.InsideAt p stop ∧ stop = p.column + 1 ∧
        doc.text.toPoint q = ⟨p.row, stop⟩ := by
  by_cases hp : ∃ stop, doc.text.InsideAt p stop
  · obtain ⟨stop, hstop⟩ := hp
    obtain ⟨line, hline, hinside⟩ := hstop
    have hsucc := hinside.stop_eq_succ
    refine .inr ⟨stop, ⟨line, hline, hinside⟩, hsucc, ?_⟩
    rw [Text.toPoint_toBytePoint_of_inside hq ⟨line, hline, hinside⟩, hsucc]
  · exact .inl (Text.toPoint_toBytePoint hq hp)

theorem le_toPoint (hq : doc.text.toBytePoint p = .ok q) : p ≤ doc.text.toPoint q := by
  rcases toPoint_eq_or_inside hq with heq | ⟨stop, _, hstop, heq⟩
  · exact heq.ge
  · rw [heq, hstop]
    exact .inr ⟨rfl, Nat.le_succ p.column⟩

theorem toPoint_lt_or_endsWithPairAt (hq : doc.text.toBytePoint p = .ok q)
    (h : p < doc.endPoint m) :
    doc.text.toPoint q < doc.endPoint m ∨ doc.EndsWithPairAt m p := by
  rcases toPoint_eq_or_inside hq with heq | ⟨stop, hinside, hstop, heq⟩
  · rw [heq]
    exact .inl h
  · have hle : doc.text.toPoint q ≤ doc.endPoint m := by
      rw [heq, hstop]
      rcases h with hrow | ⟨hrow, hcolumn⟩
      · exact .inl hrow
      · exact .inr ⟨hrow, hcolumn⟩
    rcases hle.lt_or_eq with hlt | hend
    · exact .inl hlt
    · exact .inr ⟨stop, hinside, hend.symm.trans heq⟩

theorem EndsWithPairAt.endPoint_eq (hq : doc.text.toBytePoint p = .ok q)
    (h : doc.EndsWithPairAt m p) : doc.endPoint m = doc.text.toPoint q := by
  obtain ⟨stop, ⟨line, hline, hinside⟩, hend⟩ := h
  rw [hend, Text.toPoint_toBytePoint_of_inside hq ⟨line, hline, hinside⟩, hinside.stop_eq_succ]

/-- Where the halves at a point meet, kept between the delimiters. -/
def cutAt (doc : Document) (opening closing : Tree) (point : Point) : Nat :=
  max opening.stop (min closing.start ((doc.text.firstReaching point).size .utf8))

theorem slices_of_halves (hw : doc.tree.WellFormed doc.text)
    (hd : Delimited doc.text opening elements closing)
    (h : doc.halves opening closing point = .ok (left, right)) :
    doc.text.slice opening.stop (doc.cutAt opening closing point) = .ok left ∧
      doc.text.slice (doc.cutAt opening closing point) closing.start = .ok right := by
  obtain ⟨x, inner, y, htext, hx, hinner⟩ :=
    hd.fits_opening.stop_boundary.exists_append_append hd.fits_closing.start_boundary
      hd.opening_le_closing
  obtain ⟨rfl, hcut⟩ := halves_eq hw htext hx hinner h
  rw [cutAt, ← hcut, ← hx, ← hinner, htext]
  constructor
  · have hleft := Text.slice_append_append x left (right ++ y)
    simpa using hleft
  · have hright := Text.slice_append_append (x ++ left) right y
    simpa using hright

theorem cutAt_startPoint (hd : Delimited doc.text opening elements closing)
    (hm : m ∈ elements) :
    doc.cutAt opening closing (doc.startPoint m) = m.start := by
  have hfits := (hd.fits m hm).start_le_stop
  have hle := hd.le_closing m hm
  rw [cutAt, size_firstReaching_startPoint (hd.fits m hm), Nat.min_eq_right (hfits.trans hle),
    Nat.max_eq_right (hd.opening_le m hm)]

theorem stop_le_cutAt (hd : Delimited doc.text opening elements closing) (hm : m ∈ elements)
    (hq : doc.text.toBytePoint p = .ok q) (hends : doc.text.bytePointAt m.stop ≤ q) :
    m.stop ≤ doc.cutAt opening closing p := by
  have hscan := (hd.fits m hm).stop_boundary.le_size_firstReaching hq hends
  exact (Nat.le_min.mpr ⟨hd.le_closing m hm, hscan⟩).trans (Nat.le_max_right _ _)

theorem split_of_parts (hfound : doc.enclosingAt tables.splittable p = .ok (some c))
    (hchildren : c.node.children = opening :: (elements ++ [closing]))
    (hpoint : doc.snap elements p = .ok point)
    (hhalves : doc.halves opening closing point = .ok (left, right))
    (hopen : doc.textOf opening = .ok openText) (hclose : doc.textOf closing = .ok closeText) :
    doc.split tables p = .ok (some ⟨doc.startPoint c.node, doc.endPoint c.node,
      openText ++ left ++ closeText ++ separator tables ((c.parent?.map Cursor.kind).getD "") ++
        openText ++ right ++ closeText, some point⟩) := by
  rw [split, hfound, ok_bind]
  simp only [hchildren, List.getLast?_concat, List.dropLast_concat, hpoint, hhalves, hopen,
    hclose, ok_bind]
  rfl

/-- The edit divides the text between two delimiters at the byte `cut`. -/
def DividesAt (doc : Document) (opening closing : Tree) (join : Text) (r : Replacement)
    (cut : Nat) : Prop :=
  ∃ point left right openText closeText, r.point = some point ∧
    doc.halves opening closing point = .ok (left, right) ∧
    doc.text.slice opening.stop cut = .ok left ∧ doc.text.slice cut closing.start = .ok right ∧
    doc.textOf opening = .ok openText ∧ doc.textOf closing = .ok closeText ∧
    r.content = openText ++ left ++ closeText ++ join ++ openText ++ right ++ closeText

theorem stop_le_of_lt (hd : Delimited doc.text opening elements closing) (hb : b ∈ elements)
    (hm : m ∈ elements) (hafter : q < doc.text.bytePointAt b.stop)
    (hends : doc.text.bytePointAt m.stop ≤ q) : m.stop ≤ b.start := by
  have hlt := hends.trans_lt hafter
  rcases hd.before_or_after hb hm with hbefore | rfl | hle
  · exact hbefore
  · exact absurd hlt (lt_irrefl _)
  · have hfits := hd.fits m hm
    have hplaces := (hd.fits b hb).stop_boundary.bytePointAt_le hfits.stop_boundary
      (hle.trans hfits.start_le_stop)
    exact absurd hlt (not_lt_of_ge hplaces)

theorem exists_dividesAt (hw : doc.WellFormed) (hq : doc.text.toBytePoint p = .ok q)
    (hfound : doc.enclosingAt tables.splittable p = .ok (some c))
    (hchildren : c.node.children = opening :: (elements ++ [closing]))
    (htwo : 2 ≤ elements.length) (hd : Delimited doc.text opening elements closing) :
    ∃ r cut, doc.split tables p = .ok (some r) ∧
      doc.DividesAt opening closing
        (separator tables ((c.parent?.map Cursor.kind).getD "")) r cut ∧
      (∀ earlier m later, elements = earlier ++ m :: later →
        (∀ b ∈ earlier, doc.text.bytePointAt b.stop ≤ q) → q < doc.text.bytePointAt m.stop →
        cut = m.start) ∧
      ∀ m ∈ elements, doc.text.bytePointAt m.stop ≤ q → m.stop ≤ cut := by
  obtain ⟨point, q', hpoint, hq'⟩ := exists_snap hw.addressable hd.fits hq
  obtain ⟨⟨left, right⟩, hhalves⟩ :=
    exists_halves hw.tree hd.fits_opening hd.fits_closing hd.opening_le_closing hq'
  obtain ⟨openText, hopen⟩ := exists_textOf hd.fits_opening
  obtain ⟨closeText, hclose⟩ := exists_textOf hd.fits_closing
  obtain ⟨hleft, hright⟩ := slices_of_halves hw.tree hd hhalves
  have hfirst : ∀ earlier m later, elements = earlier ++ m :: later →
      (∀ b ∈ earlier, doc.text.bytePointAt b.stop ≤ q) → q < doc.text.bytePointAt m.stop →
      doc.cutAt opening closing point = m.start := by
    intro earlier m later helements hearlier hm
    rw [snap_of_first htwo hq helements hearlier hm] at hpoint
    cases hpoint
    exact cutAt_startPoint hd (helements ▸ List.mem_append_cons_self)
  refine ⟨_, doc.cutAt opening closing point,
    split_of_parts hfound hchildren hpoint hhalves hopen hclose,
    ⟨point, left, right, openText, closeText, rfl, hhalves, hleft, hright, hopen, hclose, rfl⟩,
    hfirst, ?_⟩
  intro m hm hends
  rcases exists_first_or_none doc q elements with
    ⟨earlier, b, later, helements, hearlier, hb⟩ | hall
  · rw [hfirst earlier b later helements hearlier hb]
    exact stop_le_of_lt hd (helements ▸ List.mem_append_cons_self) hm hb hends
  · rw [snap_of_none htwo hq hall] at hpoint
    cases hpoint
    exact stop_le_cutAt hd hm hq hends

/-- A split cuts no element; it cuts at the first that ends after the point, surrogate pairs
apart. -/
theorem split_leaves_elements_whole (hw : doc.WellFormed) (hq : doc.text.toBytePoint p = .ok q)
    (hfound : doc.enclosingAt tables.splittable p = .ok (some c))
    (hchildren : c.node.children = opening :: (elements ++ [closing]))
    (htwo : 2 ≤ elements.length) :
    ∃ r cut, doc.split tables p = .ok (some r) ∧
      doc.DividesAt opening closing
        (separator tables ((c.parent?.map Cursor.kind).getD "")) r cut ∧
      (∀ m ∈ elements, opening.stop ≤ m.start ∧ (cut ≤ m.start ∨ m.stop ≤ cut)) ∧
      ((∀ m ∈ elements, doc.endPoint m ≤ p) → ∀ m ∈ elements, m.stop ≤ cut) ∧
      (∀ earlier m later, elements = earlier ++ m :: later →
        (∀ b ∈ earlier, doc.endPoint b ≤ p) → p < doc.endPoint m →
        (¬doc.EndsWithPairAt m p → cut = m.start) ∧ (doc.EndsWithPairAt m p → m.stop ≤ cut)) ∧
      ∀ earlier m later, elements = earlier ++ m :: later →
        (∀ b ∈ earlier, doc.endPoint b ≤ doc.text.toPoint q) →
        doc.text.toPoint q < doc.endPoint m → cut = m.start := by
  have hd := (enclosingAt_within hfound).delimited hw.tree hchildren
  obtain ⟨r, cut, hsplit, hdivides, hfirst, hleft⟩ :=
    exists_dividesAt hw hq hfound hchildren htwo hd
  have hlt : ∀ m ∈ elements,
      (q < doc.text.bytePointAt m.stop ↔ doc.text.toPoint q < doc.endPoint m) :=
    fun m hm => lt_endPoint_iff hw.addressable hq (hd.fits m hm)
  have hle : ∀ m ∈ elements, doc.endPoint m ≤ doc.text.toPoint q → m.stop ≤ cut := by
    intro m hm hends
    apply hleft m hm
    rw [← not_lt, hlt m hm, not_lt]
    exact hends
  have hround : ∀ earlier m later, elements = earlier ++ m :: later →
      (∀ b ∈ earlier, doc.endPoint b ≤ doc.text.toPoint q) →
      doc.text.toPoint q < doc.endPoint m → cut = m.start := by
    rintro earlier m later rfl hearlier hm
    apply hfirst earlier m later rfl
    · intro b hb
      rw [← not_lt, hlt b (List.mem_append_left _ hb), not_lt]
      exact hearlier b hb
    · rw [hlt m List.mem_append_cons_self]
      exact hm
  have hp := le_toPoint hq
  refine ⟨r, cut, hsplit, hdivides, ?_, ?_, ?_, hround⟩
  · intro m hm
    refine ⟨hd.opening_le m hm, ?_⟩
    rcases exists_first_or_none doc q elements with
      ⟨earlier, b, later, helements, hearlier, hb⟩ | hall
    · rw [hfirst earlier b later helements hearlier hb]
      exact hd.start_outside (helements ▸ List.mem_append_cons_self) hm
    · exact .inr (hleft m hm (hall m hm))
  · intro hends m hm
    exact hle m hm ((hends m hm).trans hp)
  · rintro earlier m later rfl hearlier hm
    constructor
    · intro hpair
      rcases toPoint_lt_or_endsWithPairAt hq hm with hafter | hends
      · exact hround earlier m later rfl (fun b hb => (hearlier b hb).trans hp) hafter
      · exact absurd hends hpair
    · intro hpair
      exact hle m List.mem_append_cons_self (hpair.endPoint_eq hq).le

/-- An element that ends with the surrogate pair around the cursor is left of the cut. -/
theorem split_passes_over_pair :
    let opening : Tree := .node "[" ⟨0, 1⟩ false []
    let closing : Tree := .node "]" ⟨10, 11⟩ false []
    let pair : Tree := .node "identifier" ⟨5, 9⟩ false []
    let elements : List Tree :=
      [.node "identifier" ⟨1, 3⟩ false [], .node "," ⟨3, 4⟩ false [], pair]
    let list : Tree := .node "array" ⟨0, 11⟩ false (opening :: (elements ++ [closing]))
    let doc : Document := ⟨['[', 'é', ',', '\n', '😀', ' ', ']'], list⟩
    let tables : Tables := { splittable := ["array"] }
    doc.WellFormed ∧
      (doc.text.toBytePoint ⟨0, 3⟩ = .ok ⟨0, 4⟩ ∧ ⟨0, 3⟩ < doc.endPoint pair ∧
        ∃ r, doc.split tables ⟨0, 3⟩ = .ok (some r) ∧
          doc.DividesAt opening closing (separator tables "") r pair.start) ∧
      (doc.text.toBytePoint ⟨1, 1⟩ = .ok ⟨1, 4⟩ ∧ ⟨1, 1⟩ < doc.endPoint pair ∧
        ∃ r cut, doc.split tables ⟨1, 1⟩ = .ok (some r) ∧
          doc.DividesAt opening closing (separator tables "") r cut ∧ pair.start < pair.stop ∧
          pair.stop ≤ cut) := by
  intro opening closing pair elements list doc tables
  have hw : doc.WellFormed := by decide
  have hchildren : list.children = opening :: (elements ++ [closing]) := rfl
  have hwhole {p : Point} {q : BytePoint} (hq : doc.text.toBytePoint p = .ok q)
      (hfound : doc.enclosingAt tables.splittable p = .ok (some ⟨list, []⟩)) :=
    split_leaves_elements_whole hw hq hfound hchildren (by decide)
  have hpair : doc.EndsWithPairAt pair ⟨1, 1⟩ :=
    ⟨2, ⟨['😀', ' ', ']'], rfl, [], '😀', [' ', ']'], rfl, by decide, by decide, rfl⟩, rfl⟩
  refine ⟨hw, ⟨rfl, by decide, ?_⟩, ⟨rfl, by decide, ?_⟩⟩
  · obtain ⟨r, cut, hsplit, hdivides, _, _, _, hround⟩ := hwhole (p := ⟨0, 3⟩) rfl rfl
    rw [hround (elements.take 2) pair [] rfl (by decide) (by decide)] at hdivides
    exact ⟨r, hsplit, hdivides⟩
  · obtain ⟨r, cut, hsplit, hdivides, _, _, hfirst, _⟩ := hwhole (p := ⟨1, 1⟩) rfl rfl
    have hcut := (hfirst (elements.take 2) pair [] rfl (by decide) (by decide)).2 hpair
    exact ⟨r, cut, hsplit, hdivides, by decide, hcut⟩

end Document

end StructEdit
