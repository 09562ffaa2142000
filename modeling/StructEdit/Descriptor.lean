import StructEdit.Document

namespace StructEdit

/-- A boundary as a point and as a UTF-16 offset. -/
structure Boundary where
  point : Point
  index : Nat
deriving DecidableEq, Repr

structure Descriptor where
  kind : String
  text : Text
  start : Boundary
  stop : Boundary
deriving DecidableEq, Repr

structure Family where
  node : Descriptor
  parent : Option Descriptor
  children : List Descriptor
deriving DecidableEq, Repr

namespace Document

variable (doc : Document)

def describe (t : Tree) : Checked Descriptor := do
  let text ← doc.textOf t
  return {
    kind := t.kind
    text := text
    start := ⟨doc.startPoint t, doc.startIndex t⟩
    stop := ⟨doc.endPoint t, doc.endIndex t⟩ }

def describeOption : Option Tree → Checked (Option Descriptor)
  | none => .ok none
  | some t => do return some (← doc.describe t)

def familyOf (c : Cursor) : Checked Family := do
  let node ← doc.describe c.node
  let parent ← doc.describeOption (c.parent?.map Cursor.node)
  let children ← c.node.children.mapM doc.describe
  return ⟨node, parent, children⟩

end Document

end StructEdit
