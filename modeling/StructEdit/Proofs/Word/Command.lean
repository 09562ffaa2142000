import StructEdit.Proofs.Command
import StructEdit.Proofs.Word.Edit

namespace StructEdit

namespace Word

/-- A padded replacement, with the room for it worked out first. -/
def splicePadded (t : Text) (start stop : Nat) (inserted : Text) : Checked Text := do
  let total ← add (t.size .utf8) (inserted.size .utf8)
  let padded ← add total 2
  let replaced ← sub stop start
  let _ ← sub padded replaced
  t.splicePadded start stop inserted

section Commands

variable (parser : Parser)

def validate (t : Text) : Checked (Except ParseError Unit) :=
  match parser t with
  | none => .ok (.error .noTree)
  | some tree => do
    let page ← Page.ofDocument ⟨t, tree⟩
    let errors ← tree.errors.mapM fun e => do return (← page.startPoint e, e.span)
    match errors with
    | [] => return .ok ()
    | [(start, span)] => return .error (.oneError start span)
    | _ => return .error (.manyErrors errors.length)

def acceptsReplacement (t : Text) (start stop : Nat) (inserted : Text) :
    Except EngineError Bool := do
  let candidate ← splicePadded t start stop inserted
  match ← validate parser candidate with
  | .ok () => return true
  | .error e => if e.isSyntaxError then return false else throw (.parse e)

def firstAccepting (t unitText : Text) : List Cursor → Except EngineError (Option Cursor)
  | [] => .ok none
  | target :: rest => do
    let accepted ← acceptsReplacement parser t target.node.start target.node.stop unitText
    if accepted then return some target else firstAccepting t unitText rest

def Page.raise (page : Page) (tables : Tables) (p : Point) :
    Except EngineError (Option Replacement) := do
  let some c ← (page.enclosingAt tables.units p : Checked _) | return none
  let unitText ← page.textOf c.node
  match ← firstAccepting parser page.text unitText c.ancestors with
  | some target => return some (← page.raiseOver target.node c.node unitText)
  | none => throw (.raiseExhausted c.kind (← page.startPoint c.node))

variable (tables : Tables) (t : Text) (p : Point)

def parsed : Except EngineError Page := do
  let doc ← parser.document t
  Page.ofDocument doc

def navigate (command : Navigation) : Except EngineError (Option Point) := do
  let page ← parsed parser t
  page.navigate tables p command

def operate (command : Operation) : Except EngineError (Option Replacement) := do
  let page ← parsed parser t
  match command with
  | .splitExpr => page.split tables p
  | .barfForward => page.barf tables p
  | .raiseExpr => page.raise parser tables p

def query (command : Query) : Except EngineError (Option Family) := do
  let page ← parsed parser t
  page.query p command

end Commands

open Document

variable {parser : Parser} {tables : Tables} {t : Text} {tree : Tree} {p : Point}

section Addressed

variable (hparse : parser t = some tree)
  (hdoc : Text.size .utf8 (Document.mk t tree).text + 1 < addressLimit)

include hparse hdoc

end Addressed

end Word

end StructEdit
