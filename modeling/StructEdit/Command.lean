import StructEdit.Descriptor
import StructEdit.Edit.Barf
import StructEdit.Edit.Raise
import StructEdit.Edit.Split

namespace StructEdit

inductive Navigation where
  | scopeEnd
  | scopeStart
  | scopeInto
  | scopeOut
deriving DecidableEq, Repr

inductive Operation where
  | splitExpr
  | barfForward
  | raiseExpr
deriving DecidableEq, Repr

inductive Query where
  | nodeAt
  | nodeBefore
  | nodeParent
deriving DecidableEq, Repr

structure CommandName where
  wire : String
  cli : String
deriving DecidableEq, Repr

/-- A family of commands with their names. -/
class Command (α : Type) where
  all : List α
  name : α → CommandName

namespace Command

variable {α : Type} [Command α]

def ofWire? (name : String) : Option α :=
  (all : List α).find? fun c => (Command.name c).wire == name

def ofCli? (name : String) : Option α :=
  (all : List α).find? fun c => (Command.name c).cli == name

end Command

instance : Command Navigation where
  all := [.scopeEnd, .scopeStart, .scopeInto, .scopeOut]
  name
    | .scopeEnd => ⟨"scopeEnd", "scope-end"⟩
    | .scopeStart => ⟨"scopeStart", "scope-start"⟩
    | .scopeInto => ⟨"scopeInto", "scope-into"⟩
    | .scopeOut => ⟨"scopeOut", "scope-out"⟩

instance : Command Operation where
  all := [.splitExpr, .barfForward, .raiseExpr]
  name
    | .splitExpr => ⟨"splitExpr", "split-expr"⟩
    | .barfForward => ⟨"barfForward", "barf-forward"⟩
    | .raiseExpr => ⟨"raiseExpr", "raise-expr"⟩

instance : Command Query where
  all := [.nodeAt, .nodeBefore, .nodeParent]
  name
    | .nodeAt => ⟨"nodeAt", "node-at"⟩
    | .nodeBefore => ⟨"nodeBefore", "node-before"⟩
    | .nodeParent => ⟨"nodeParent", "node-parent"⟩

def Document.navigate (doc : Document) (tables : Tables) (command : Navigation) (p : Point) :
    Checked (Option Point) :=
  match command with
  | .scopeEnd => do return some (← doc.scopeEnd tables.scopes p)
  | .scopeStart => doc.scopeStart tables.scopes p
  | .scopeInto => doc.scopeInto tables.scopes p
  | .scopeOut => doc.scopeOut tables.scopes p

/-- The edit that a command makes, if there is something to edit. -/
def Document.operate (doc : Document) (parser : Parser) (tables : Tables) (command : Operation)
    (p : Point) : Except EngineError (Option Replacement) :=
  match command with
  | .splitExpr => doc.split tables p
  | .barfForward => doc.barf tables p
  | .raiseExpr => doc.raise parser tables p

def Document.query (doc : Document) (command : Query) (p : Point) :
    Checked (Option Family) := do
  let c ← doc.nodeAt p
  let target :=
    match command with
    | .nodeAt => some c
    | .nodeBefore => c.previous?
    | .nodeParent => c.parent?
  match target with
  | some target => return some (← doc.familyOf target)
  | none => return none

namespace Parser

variable (parser : Parser) (tables : Tables) (t : Text) (p : Point)

def navigate (command : Navigation) : Except EngineError (Option Point) := do
  let doc ← document parser t
  doc.navigate tables command p

def operate (command : Operation) : Except EngineError (Option Replacement) := do
  let doc ← document parser t
  doc.operate parser tables command p

def query (command : Query) : Except EngineError (Option Family) := do
  let doc ← document parser t
  doc.query command p

end Parser

end StructEdit
