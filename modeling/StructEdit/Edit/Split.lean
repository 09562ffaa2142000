import StructEdit.Document
import StructEdit.Edit.Replacement
import StructEdit.Language.Tables
import StructEdit.Text.Blank

namespace StructEdit.Document

variable (doc : Document)

/-- The start of the first element that ends after the point, if there are two or more. -/
def snap (elements : List Tree) (p : Point) : Checked Point :=
  if elements.length < 2 then .ok p
  else do
    let q ← doc.text.toBytePoint p
    match elements.find? fun t => q < doc.text.bytePointAt t.stop with
    | some t => return doc.startPoint t
    | none => return p

/-- What stands between the two halves of a node inside a parent of the given kind. -/
def separator (tables : Tables) (parentKind : String) : Text :=
  Text.trimEnd (tables.delimiterFor parentKind).toList ++ [' ']

def halves (opening closing : Tree) (p : Point) : Checked (Text × Text) := do
  let inner ← doc.text.slice opening.stop (max closing.start opening.stop)
  let index ← doc.pointIndex p
  inner.cut (inner.byteOfUnits (index - doc.text.indexOfByte opening.stop))

def split (tables : Tables) (p : Point) : Checked (Option Replacement) := do
  let some c ← doc.enclosingAt tables.splittable p | return none
  let opening :: rest := c.node.children | return none
  let some closing := rest.getLast? | return none
  let point ← doc.snap rest.dropLast p
  let (left, right) ← doc.halves opening closing point
  let before ← doc.textOf opening
  let after ← doc.textOf closing
  let parentKind := (c.parent?.map Cursor.kind).getD ""
  let content :=
    before ++ left ++ after ++ separator tables parentKind ++ before ++ right ++ after
  return some ⟨doc.startPoint c.node, doc.endPoint c.node, content, some point⟩

end StructEdit.Document
