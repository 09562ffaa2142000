import StructEdit.Error
import StructEdit.Proofs.Text.Translation

namespace StructEdit

namespace Text

variable {t : Text} {p : Point}

theorem exists_cut_upTo (e : Encoding) (t : Text) (n : Nat) :
    ∃ halves, t.cut (size .utf8 (t.upTo e n)) = .ok halves := by
  obtain ⟨r, hr⟩ := upTo_isPrefix e t n
  have hcut := cut_append (t.upTo e n) r
  rw [hr] at hcut
  exact ⟨_, hcut⟩

theorem exists_slice {m n : Nat} (hm : t.IsBoundary m) (hn : t.IsBoundary n) (hle : m ≤ n) :
    ∃ s, t.slice m n = .ok s := by
  obtain ⟨a, b, c, rfl, rfl, rfl⟩ := hm.exists_append_append hn hle
  exact ⟨b, slice_append_append a b c⟩

end Text

section Results

variable {ε α β : Type}

theorem exists_ok_bind {first : Except ε α} {next : α → Except ε β}
    (hfirst : ∃ a, first = .ok a) (hnext : ∀ a, first = .ok a → ∃ b, next a = .ok b) :
    ∃ b, first >>= next = .ok b := by
  obtain ⟨a, rfl⟩ := hfirst
  exact hnext a rfl

end Results

end StructEdit
