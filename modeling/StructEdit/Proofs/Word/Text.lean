import StructEdit.Proofs.Document
import StructEdit.Proofs.Fault
import StructEdit.Proofs.Text.Lines

namespace StructEdit.Word

/-- A sum that has to fit in 64 bits. -/
def add (a b : Nat) : Checked Nat :=
  if a + b < addressLimit then .ok (a + b) else .error (.overflow (a + b : Nat))

def sub (a b : Nat) : Checked Nat :=
  if b ≤ a then .ok (a - b) else .error (.overflow ((a : Int) - (b : Int)))

def startsAfter (n : Nat) : Text → Checked (List Nat)
  | [] => .ok []
  | c :: t =>
    if c = '\n' then do
      let start ← add n 1
      let rest ← startsAfter (n + c.utf8Size) t
      return start :: rest
    else startsAfter (n + c.utf8Size) t

def seen (e : Encoding) (byte units : Nat) : Nat :=
  match e with
  | .utf8 => byte
  | .utf16 => units

/-- The bytes and units read until `n` of those that `e` counts have been seen. -/
def scan (e : Encoding) (n byte units : Nat) : Text → Checked (Nat × Nat)
  | [] => .ok (byte, units)
  | c :: t =>
    if n ≤ seen e byte units then .ok (byte, units)
    else do
      let units ← add units (Encoding.utf16.size c)
      scan e n (byte + Encoding.utf8.size c) units t

def advance (p : Point) (c : Char) : Checked Point :=
  if c = '\n' then do return ⟨← add p.row 1, 0⟩
  else do return ⟨p.row, ← add p.column (Encoding.utf16.size c)⟩

/-- The offset at which a walk over a text reaches `target`, or the end if it never does. -/
def walk (target : Point) : Point → Nat → Text → Checked Nat
  | _, index, [] => .ok index
  | p, index, c :: t =>
    if target ≤ p then .ok index
    else do
      let index ← add index (Encoding.utf16.size c)
      let p ← advance p c
      walk target p index t

/-- A document with the table of its lines. -/
structure Page extends Document where
  starts : List Nat

namespace Page

def ofDocument (doc : Document) : Checked Page := do
  let starts ← startsAfter 0 doc.text
  return ⟨doc, 0 :: starts⟩

variable (page : Page)

def lineStop (row : Nat) : Checked Nat := do
  let next ← add row 1
  match page.starts[next]? with
  | some start => sub start 1
  | none => return page.text.size .utf8

def line? (row : Nat) : Checked (Option Text) :=
  match page.starts[row]? with
  | none => .ok none
  | some start => do
    let stop ← page.lineStop row
    let line ← page.text.slice start stop
    return some line

def toBytePoint (p : Point) : Checked BytePoint := do
  match ← page.line? p.row with
  | none => return ⟨p.row, p.column⟩
  | some line =>
    let (byte, units) ← scan .utf16 p.column 0 0 line
    let column ← add byte (p.column - units)
    return ⟨p.row, column⟩

def toPoint (q : BytePoint) : Checked Point := do
  match ← page.line? q.row with
  | none => return ⟨q.row, q.column⟩
  | some line =>
    let within := min q.column (line.size .utf8)
    let (_, units) ← scan .utf8 within 0 0 line
    let past ← sub q.column within
    let column ← add units past
    return ⟨q.row, column⟩

def startPoint (t : Tree) : Checked Point := page.toPoint (page.text.bytePointAt t.start)

def endPoint (t : Tree) : Checked Point := page.toPoint (page.text.bytePointAt t.stop)

def indexOfByte (n : Nat) : Checked Nat := do
  let (_, units) ← scan .utf8 n 0 0 page.text
  return units

def nodeAt (p : Point) : Checked Cursor := do
  let q ← page.toBytePoint p
  return page.tree.deepestAt page.text q

def enclosingAt (kinds : List String) (p : Point) : Checked (Option Cursor) := do
  let c ← page.nodeAt p
  return c.enclosing? kinds

def pointIndex (p : Point) : Checked Nat := do
  let c ← page.nodeAt p
  let origin ← page.startPoint c.node
  if origin ≤ p then
    let index ← page.indexOfByte c.node.start
    let (_, rest) ← page.text.cut c.node.start
    walk p origin index rest
  else walk p .origin 0 page.text

end Page

end Word

namespace Document

open Word

variable {doc : Document}

section Addressed

variable (hdoc : doc.text.size .utf8 + 1 < addressLimit)

include hdoc

end Addressed

end Document

end StructEdit
