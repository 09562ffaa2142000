import Mathlib.Data.List.DropRight
import StructEdit.Text.Blank

namespace StructEdit

theorem toNat_toLower (c : Char) :
    c.toLower.toNat = if 65 ≤ c.toNat ∧ c.toNat ≤ 90 then c.toNat + 32 else c.toNat := by
  by_cases h : 65 ≤ c.toNat ∧ c.toNat ≤ 90
  · rw [if_pos h, show c.toLower = ⟨c.val + 32, _⟩ from dif_pos h]
    exact Nat.mod_eq_of_lt (a := c.toNat + 32) (by omega)
  · rw [if_neg h, show c.toLower = c from dif_neg h]

theorem isBlank_toLower (c : Char) : isBlank c.toLower = isBlank c := by
  simp only [isBlank, toNat_toLower]
  grind

theorem toLower_toLower (c : Char) : c.toLower.toLower = c.toLower := by
  apply Char.toNat_inj.mp
  simp only [toNat_toLower]
  grind

namespace Text

variable {left t right : Text}

theorem trim_eq (t : Text) : t.trim = (t.dropWhile isBlank).rdropWhile isBlank := rfl

theorem trim_map {f : Char → Char} (hf : ∀ c, isBlank (f c) = isBlank c) (t : Text) :
    trim (t.map f) = t.trim.map f := by
  have hcomp : isBlank ∘ f = isBlank := funext hf
  rw [trim_eq, trim_eq, List.rdropWhile, List.rdropWhile, List.dropWhile_map, hcomp,
    ← List.map_reverse, List.dropWhile_map, hcomp, List.map_reverse]

theorem trim_trim (t : Text) : t.trim.trim = t.trim := by
  obtain ⟨rest, hrest⟩ := List.rdropWhile_prefix isBlank (l := t.dropWhile isBlank)
  have hstart : t.trim.dropWhile isBlank = t.trim := by
    cases htrim : t.trim with
    | nil => rfl
    | cons c s =>
      have hc := List.head?_dropWhile_not isBlank t
      rw [← hrest, ← trim_eq, htrim] at hc
      exact List.dropWhile_cons_of_neg (Bool.eq_false_iff.mp hc)
  rw [trim_eq, hstart, trim_eq, List.rdropWhile_idempotent]

theorem trim_append_of_blank (hleft : ∀ c ∈ left, isBlank c) (hright : ∀ c ∈ right, isBlank c) :
    trim (left ++ t ++ right) = t.trim := by
  rw [trim_eq, List.append_assoc, List.dropWhile_append_of_pos hleft, List.dropWhile_append,
    trim_eq]
  split
  · next hblank =>
    rw [List.dropWhile_eq_nil_iff.mpr hright, List.isEmpty_iff.mp hblank]
  · have hreverse : ∀ c ∈ right.reverse, isBlank c :=
      fun c hc => hright c (List.mem_reverse.mp hc)
    rw [List.rdropWhile, List.reverse_append, List.dropWhile_append_of_pos hreverse,
      List.rdropWhile]

theorem trim_eq_nil_iff (t : Text) : t.trim = [] ↔ ∀ c ∈ t, isBlank c := by
  rw [trim_eq, List.rdropWhile_eq_nil_iff, ← List.dropWhile_eq_nil_iff,
    List.dropWhile_idempotent, List.dropWhile_eq_nil_iff]

end Text

theorem nameKey_eq (name : String) :
    nameKey name = String.ofList ((Text.trim name.toList).map Char.toLower) := by
  simp [nameKey, lowerName, trimName]

theorem nameKey_eq_empty_iff (name : String) : nameKey name = "" ↔ isBlankName name := by
  rw [nameKey_eq, String.ofList_eq_empty_iff, List.map_eq_nil_iff, Text.trim_eq_nil_iff,
    isBlankName, List.all_eq_true]

theorem nameKey_nameKey (name : String) : nameKey (nameKey name) = nameKey name := by
  have hlower : Char.toLower ∘ Char.toLower = Char.toLower :=
    funext toLower_toLower
  rw [nameKey_eq (nameKey name), nameKey_eq name, String.toList_ofList,
    Text.trim_map isBlank_toLower, Text.trim_trim, List.map_map, hlower]

/-- A spelling of a name has its letters in any ASCII case and blanks around them. -/
def IsSpelling (spelling name : String) : Prop :=
  ∃ left inner right : Text, spelling.toList = left ++ inner ++ right ∧
    (∀ c ∈ left, isBlank c) ∧ (∀ c ∈ right, isBlank c) ∧
    inner.map Char.toLower = name.toList.map Char.toLower

theorem IsSpelling.nameKey_eq {spelling name : String} (h : IsSpelling spelling name) :
    nameKey spelling = nameKey name := by
  obtain ⟨left, inner, right, hspelling, hleft, hright, hinner⟩ := h
  rw [StructEdit.nameKey_eq, StructEdit.nameKey_eq, hspelling,
    Text.trim_append_of_blank hleft hright, ← Text.trim_map isBlank_toLower, hinner,
    Text.trim_map isBlank_toLower]

end StructEdit
