import StructEdit.Language.Builtin
import StructEdit.Text.Similarity

namespace StructEdit

/-- Definitions in the order of their names, one for each name. -/
structure Registry where
  definitions : List Definition
  sorted : definitions.Pairwise fun d e => d.name < e.name

namespace Registry

/-- Puts a definition in its place, instead of one with its name. -/
def insertSorted (d : Definition) : List Definition → List Definition
  | [] => [d]
  | e :: rest =>
    if d.name < e.name then d :: e :: rest
    else if d.name = e.name then d :: rest
    else e :: insertSorted d rest

theorem mem_insertSorted {d a : Definition} {ds : List Definition}
    (h : a ∈ insertSorted d ds) : a = d ∨ a ∈ ds := by
  fun_induction insertSorted d ds with
  | case1 => simpa using h
  | case2 e rest hlt => simpa using h
  | case3 e rest hlt heq =>
    rcases List.mem_cons.mp h with h | h
    · exact .inl h
    · exact .inr (List.mem_cons_of_mem _ h)
  | case4 e rest hlt hne ih =>
    rcases List.mem_cons.mp h with rfl | h
    · exact .inr List.mem_cons_self
    · exact (ih h).imp_right (List.mem_cons_of_mem _)

theorem pairwise_insertSorted {ds : List Definition}
    (h : ds.Pairwise fun d e => d.name < e.name) (d : Definition) :
    (insertSorted d ds).Pairwise fun d e => d.name < e.name := by
  fun_induction insertSorted d ds with
  | case1 => exact List.pairwise_singleton _ d
  | case2 e rest hlt =>
    refine List.pairwise_cons.mpr ⟨?_, h⟩
    intro a ha
    rcases List.mem_cons.mp ha with rfl | ha
    · exact hlt
    · exact String.lt_trans hlt (List.rel_of_pairwise_cons h ha)
  | case3 e rest hlt heq =>
    obtain ⟨he, hrest⟩ := List.pairwise_cons.mp h
    refine List.pairwise_cons.mpr ⟨?_, hrest⟩
    intro a ha
    rw [heq]
    exact he a ha
  | case4 e rest hlt hne ih =>
    obtain ⟨he, hrest⟩ := List.pairwise_cons.mp h
    refine List.pairwise_cons.mpr ⟨?_, ih hrest⟩
    intro a ha
    rcases mem_insertSorted ha with rfl | ha
    · exact Std.lt_of_le_of_ne (String.not_lt.mp hlt) (Ne.symm hne)
    · exact he a ha

def empty : Registry := ⟨[], .nil⟩

def insert (r : Registry) (d : Definition) : Registry :=
  ⟨insertSorted d r.definitions, pairwise_insertSorted r.sorted d⟩

def ofDefinitions (ds : List Definition) : Registry := ds.foldl insert empty

def builtin : Registry := ofDefinitions Builtin.definitions

def find? (r : Registry) (name : String) : Option Definition :=
  r.definitions.find? (·.name == nameKey name)

def isRegistered (r : Registry) (name : String) : Bool := (r.find? name).isSome

def suggestionThreshold : Float := 0.8

/-- The registered name most like the given one; of equals, the last. -/
def suggest (r : Registry) (name : String) : Option String :=
  let key := (nameKey name).toList
  let step (best : Option (String × Float)) (d : Definition) : Option (String × Float) :=
    let score := Text.similarity key d.name.toList
    if score < suggestionThreshold then best
    else
      match best with
      | some (_, top) => if score < top then best else some (d.name, score)
      | none => some (d.name, score)
  (r.definitions.foldl step none).map Prod.fst

end Registry

end StructEdit
