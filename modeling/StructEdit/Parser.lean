import StructEdit.Document
import StructEdit.Error
import StructEdit.Tree.Errors

namespace StructEdit

abbrev Parser := Text → Option Tree

/-- A text with another, between blanks, in place of the bytes from `start` to `stop`. -/
def Text.splicePadded (t : Text) (start stop : Nat) (inserted : Text) : Checked Text :=
  if start ≤ stop then do
    let (before, _) ← t.cut start
    let (_, after) ← t.cut stop
    return before ++ [' '] ++ inserted ++ [' '] ++ after
  else .error (.badRange start stop)

namespace Parser

variable (parser : Parser)

def document (t : Text) : Except ParseError Document :=
  match parser t with
  | some tree => .ok ⟨t, tree⟩
  | none => .error .noTree

/-- Succeeds if the tree of the text has no error nodes. -/
def validate (t : Text) : Except ParseError Unit := do
  let doc ← document parser t
  match doc.tree.errors with
  | [] => .ok ()
  | [e] => .error (.oneError (doc.startPoint e) e.span)
  | es => .error (.manyErrors es.length)

def acceptsReplacement (t : Text) (start stop : Nat) (inserted : Text) :
    Except EngineError Bool := do
  let candidate ← t.splicePadded start stop inserted
  match validate parser candidate with
  | .ok () => return true
  | .error e => if e.isSyntaxError then return false else throw (.parse e)

end Parser

end StructEdit
