import StructEdit.Edit.Replacement
import StructEdit.Language.Tables
import StructEdit.Scope

namespace StructEdit.Document

/-- Puts the last element of the innermost scope behind its closing delimiter. -/
def barf (doc : Document) (tables : Tables) (p : Point) : Checked (Option Replacement) := do
  let some scope ← doc.scopeAt tables.scopes p | return none
  match scope.node.children.reverse with
  | delimiter :: element :: _ :: _ =>
    let gap ← doc.text.slice element.stop delimiter.start
    let moved ← doc.textOf delimiter
    let excluded ← doc.textOf element
    return some
      { start := doc.startPoint element
        stop := doc.endPoint delimiter
        content := moved ++ gap ++ excluded }
  | _ => return none

end StructEdit.Document
