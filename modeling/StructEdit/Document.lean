import StructEdit.Tree.Lookup

namespace StructEdit

structure Document where
  text : Text
  tree : Tree

namespace Document

variable (doc : Document)

def root : Cursor := .atRoot doc.tree

def textOf (t : Tree) : Checked Text := doc.text.slice t.start t.stop

def startPoint (t : Tree) : Point := doc.text.toPoint (doc.text.bytePointAt t.start)

def endPoint (t : Tree) : Point := doc.text.toPoint (doc.text.bytePointAt t.stop)

def startIndex (t : Tree) : Nat := doc.text.indexOfByte t.start

def endIndex (t : Tree) : Nat := doc.text.indexOfByte t.stop

/-- The deepest node at a point, the root where there is no deeper one. -/
def nodeAt (p : Point) : Checked Cursor := do
  let q ← doc.text.toBytePoint p
  return doc.tree.deepestAt doc.text q

/-- The UTF-16 offset of a point, counted from the node at it or from the start of the text. -/
def pointIndex (p : Point) : Checked Nat := do
  let c ← doc.nodeAt p
  let origin := doc.startPoint c.node
  if origin ≤ p then
    let (_, rest) ← doc.text.cut c.node.start
    return doc.startIndex c.node + (rest.reach p origin).size .utf16
  else
    return (doc.text.reach p .origin).size .utf16

def enclosingAt (kinds : List String) (p : Point) : Checked (Option Cursor) := do
  let c ← doc.nodeAt p
  return c.enclosing? kinds

end Document

end StructEdit
