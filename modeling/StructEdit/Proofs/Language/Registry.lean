import StructEdit.Language.Registry
import StructEdit.Proofs.Text.Name

namespace StructEdit

namespace Registry

variable {r : Registry} {d : Definition} {ds : List Definition} {k name : String}

/-- The definition that is listed under a key as it stands. -/
def listed? (r : Registry) (k : String) : Option Definition := r.definitions.find? (·.name == k)

theorem find?_eq_listed? (r : Registry) (name : String) :
    r.find? name = r.listed? (nameKey name) :=
  rfl

theorem name_of_listed? (h : r.listed? k = some d) : d.name = k := by
  simpa using List.find?_some h

theorem find?_insertSorted (d : Definition) (ds : List Definition) (k : String) :
    (insertSorted d ds).find? (·.name == k) =
      if d.name = k then some d else ds.find? (·.name == k) := by
  fun_induction insertSorted d ds with
  | case1 => by_cases h : d.name = k <;> simp [h]
  | case2 e rest hlt => by_cases h : d.name = k <;> simp [h]
  | case3 e rest hlt heq => by_cases h : d.name = k <;> simp [h, ← heq]
  | case4 e rest hlt hne ih =>
    by_cases h : e.name = k
    · have hd : d.name ≠ k := fun hd => hne (hd.trans h.symm)
      rw [if_neg hd]
      simp [h]
    · rw [List.find?_cons_of_neg (by simpa using h), ih,
        List.find?_cons_of_neg (by simpa using h)]

theorem listed?_insert (r : Registry) (d : Definition) (k : String) :
    (r.insert d).listed? k = if d.name = k then some d else r.listed? k :=
  find?_insertSorted d r.definitions k

theorem listed?_foldl_insert (ds : List Definition) (r : Registry) (k : String) :
    (ds.foldl insert r).listed? k = (ds.reverse.find? (·.name == k)).or (r.listed? k) := by
  induction ds generalizing r with
  | nil => rfl
  | cons d ds ih =>
    rw [List.foldl_cons, ih, listed?_insert, List.reverse_cons, List.find?_append,
      Option.or_assoc]
    by_cases h : d.name = k <;> simp [h]

/-- Of the definitions with one name the last is listed. -/
theorem listed?_ofDefinitions (ds : List Definition) (k : String) :
    (ofDefinitions ds).listed? k = ds.reverse.find? (·.name == k) := by
  rw [ofDefinitions, listed?_foldl_insert]
  exact Option.or_none

theorem find?_name_eq_some_iff (h : ds.Pairwise fun d e => d.name ≠ e.name) :
    ds.find? (·.name == k) = some d ↔ d ∈ ds ∧ d.name = k := by
  constructor
  · intro hd
    exact ⟨List.mem_of_find?_eq_some hd, by simpa using List.find?_some hd⟩
  · rintro ⟨hd, rfl⟩
    induction ds with
    | nil => exact absurd hd List.not_mem_nil
    | cons e ds ih =>
      obtain ⟨he, hds⟩ := List.pairwise_cons.mp h
      rcases List.mem_cons.mp hd with rfl | hd
      · simp
      · simp [he d hd, ih hds hd]

theorem listed?_name_of_mem (hd : d ∈ r.definitions) : r.listed? d.name = some d := by
  have hdistinct : r.definitions.Pairwise fun d e => d.name ≠ e.name :=
    r.sorted.imp String.ne_of_lt
  exact (find?_name_eq_some_iff hdistinct).mpr ⟨hd, rfl⟩

end Registry

namespace Builtin

theorem pairwise_definitions : definitions.Pairwise fun b c => b.name ≠ c.name := by decide

theorem nameKey_name : ∀ b ∈ definitions, nameKey b.name = b.name := by decide

theorem find?_nameKey (name : String) : find? (nameKey name) = find? name := by
  rw [find?, nameKey_nameKey, find?]

theorem find?_name {b : Definition} (hb : b ∈ definitions) : find? b.name = some b := by
  rw [find?, nameKey_name b hb]
  exact (Registry.find?_name_eq_some_iff pairwise_definitions).mpr ⟨hb, rfl⟩

end Builtin

end StructEdit
