import StructEdit.Document

namespace StructEdit.Document

variable (doc : Document) (kinds : List String)

def scopeAt (p : Point) : Checked (Option Cursor) := doc.enclosingAt kinds p

/-- The start of the enclosing scope, or else of the one a column to the left. -/
def scopeStart (p : Point) : Checked (Option Point) := do
  match ← doc.scopeAt kinds p with
  | some scope => return some (doc.startPoint scope.node)
  | none =>
    let scope ← doc.scopeAt kinds p.stepLeft
    return scope.map fun scope => doc.startPoint scope.node

def scopeEnd (p : Point) : Checked Point := do
  match ← doc.scopeAt kinds p with
  | some scope => return doc.endPoint scope.node
  | none => return doc.endPoint doc.tree

def scopeInto (p : Point) : Checked (Option Point) := do
  let scope ← doc.scopeAt kinds p
  return (scope.bind (Cursor.nested? kinds)).map fun inner => doc.startPoint inner.node

def scopeOut (p : Point) : Checked (Option Point) := do
  let scope ← doc.scopeAt kinds p
  let outer := (scope.bind Cursor.parent?).bind (Cursor.enclosing? kinds)
  return outer.map fun outer => doc.startPoint outer.node

end StructEdit.Document
