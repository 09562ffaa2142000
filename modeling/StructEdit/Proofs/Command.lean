import StructEdit.Command
import StructEdit.Proofs.Edit.Region
import StructEdit.Proofs.Fault
import StructEdit.Proofs.Offset
import StructEdit.Proofs.Parser
import StructEdit.Proofs.Tree.Lineage

namespace StructEdit

namespace Document

variable {doc : Document} {t : Tree} {p : Point} {q : BytePoint} {c : Cursor}
  {kinds : List String} {tables : Tables} {parser : Parser}

theorem exists_textOf (ht : t.Fits doc.text) : ∃ s, doc.textOf t = .ok s :=
  Text.exists_slice ht.start_boundary ht.stop_boundary ht.start_le_stop

theorem exists_snap {elements : List Tree} (hsize : doc.text.size .utf8 < addressLimit)
    (helements : ∀ t ∈ elements, t.Fits doc.text) (hq : doc.text.toBytePoint p = .ok q) :
    ∃ point q', doc.snap elements p = .ok point ∧ doc.text.toBytePoint point = .ok q' := by
  rw [snap]
  split
  · exact ⟨p, q, rfl, hq⟩
  · rw [hq, ok_bind]
    split
    · next t ht =>
      have hfits := helements t (List.mem_of_find?_eq_some ht)
      exact ⟨_, _, rfl, toBytePoint_startPoint hfits hsize⟩
    · exact ⟨p, q, rfl, hq⟩

theorem exists_halves {opening closing : Tree} (hw : doc.tree.WellFormed doc.text)
    (ho : opening.Fits doc.text) (hc : closing.Fits doc.text)
    (hle : opening.stop ≤ closing.start)
    (hq : doc.text.toBytePoint p = .ok q) :
    ∃ halves, doc.halves opening closing p = .ok halves := by
  rw [halves, Nat.max_eq_left hle]
  apply exists_ok_bind (Text.exists_slice ho.stop_boundary hc.start_boundary hle)
  intro inner _
  exact exists_ok_bind ⟨_, pointIndex_eq hw hq⟩ fun _ _ => Text.exists_cut_upTo .utf16 inner _

end Document

namespace Parser

open Document

variable {parser : Parser} {tables : Tables} {t : Text} {tree : Tree} {p : Point}

end Parser

end StructEdit
