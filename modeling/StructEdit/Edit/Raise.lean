import StructEdit.Edit.Replacement
import StructEdit.Language.Tables
import StructEdit.Parser
import StructEdit.Text.Indent

namespace StructEdit.Document

variable (doc : Document)

/-- The replacement of `target` by the text of `unit`, moved to the column of `target`. -/
def raiseOver (target unit : Tree) (unitText : Text) : Replacement :=
  let start := doc.startPoint target
  let shift : Int := (start.column : Int) - ((doc.startPoint unit).column : Int)
  { start := start, stop := doc.endPoint target, content := unitText.reindent shift }

/-- The first of the nodes that the parser lets the text take the place of. -/
def firstAccepting (parser : Parser) (unitText : Text) :
    List Cursor → Except EngineError (Option Cursor)
  | [] => .ok none
  | target :: rest => do
    let accepted ←
      parser.acceptsReplacement doc.text target.node.start target.node.stop unitText
    if accepted then return some target else firstAccepting parser unitText rest

def raise (parser : Parser) (tables : Tables) (p : Point) :
    Except EngineError (Option Replacement) := do
  let some c ← (doc.enclosingAt tables.units p : Checked _) | return none
  let unitText ← doc.textOf c.node
  match ← doc.firstAccepting parser unitText c.ancestors with
  | some target => return some (doc.raiseOver target.node c.node unitText)
  | none => throw (.raiseExhausted c.kind (doc.startPoint c.node))

end StructEdit.Document
