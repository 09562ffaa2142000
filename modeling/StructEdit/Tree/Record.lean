import StructEdit.Tree.Basic

namespace StructEdit

structure NodeRecord where
  kind : String
  span : Span
  missing : Bool
  parent : Option Nat

namespace Tree

/-- The tree of a list of records, built from the last to the first. -/
def ofRecords? (records : List NodeRecord) : Option Tree :=
  let slots : Array (List Tree) := Array.replicate records.length []
  let step (entry : NodeRecord × Nat) (state : Array (List Tree) × Option Tree) :=
    let (record, index) := entry
    let (slots, root) := state
    let t := node record.kind record.span record.missing (slots.getD index [])
    match record.parent with
    | some parent => (slots.modify parent (t :: ·), root)
    | none => (slots, some t)
  (records.zipIdx.foldr step (slots, none)).2

/-- A tree that has the given error nodes and nothing else. -/
def ofErrors (stop : Nat) (spans : List Span) : Tree :=
  node "document" ⟨0, stop⟩ false (spans.map fun span => node "ERROR" span false [])

end Tree

end StructEdit
