import StructEdit.Command
import StructEdit.Proofs.Word.Text

namespace StructEdit

namespace Word

def signLimit : Nat := 0x8000000000000000

/-- An unsigned number read as a signed one of as many bits. -/
def signed (n : Nat) : Int :=
  if n < signLimit then (n : Int) else (n : Int) - (addressLimit : Int)

def subSigned (a b : Nat) : Checked Int :=
  let d := signed a - signed b
  if -(signLimit : Int) ≤ d ∧ d < (signLimit : Int) then .ok d else .error (.overflow d)

def dedentLine (n : Nat) (line : Text) : Checked Text :=
  if n ≤ line.length then do
    let (blanks, rest) ← line.cut (Text.size .utf8 (line.take n))
    return if blanks.all isBlank then rest else line
  else .ok line

def shiftLine (shift : Int) (line : Text) : Checked Text :=
  if shift < 0 then dedentLine shift.natAbs line
  else .ok (List.replicate shift.natAbs ' ' ++ line)

def reindent (t : Text) (shift : Int) : Checked Text :=
  match t.lines with
  | [] => .ok []
  | first :: rest => do
    let rest ← rest.mapM (shiftLine shift)
    return Text.joinLines (first :: rest)

theorem dedentLine_eq (n : Nat) (line : Text) :
    dedentLine n line = .ok (line.dedentLine n) := by
  rw [dedentLine, Text.dedentLine]
  by_cases hn : n ≤ line.length
  · have hcut := Text.cut_append (line.take n) (line.drop n)
    rw [List.take_append_drop] at hcut
    rw [if_pos hn, hcut, ok_bind]
    simp only [hn, decide_true, Bool.true_and]
    rfl
  · simp only [hn, decide_false, Bool.false_and]
    rfl

theorem shiftLine_eq (shift : Int) (line : Text) :
    shiftLine shift line = .ok (line.shiftLine shift) := by
  rw [shiftLine, Text.shiftLine, dedentLine_eq]
  split <;> rfl

theorem reindent_eq (t : Text) (shift : Int) : reindent t shift = .ok (t.reindent shift) := by
  have hshift : shiftLine shift = fun line => pure (line.shiftLine shift) := by
    funext line
    exact shiftLine_eq shift line
  rw [reindent, Text.reindent]
  cases t.lines with
  | nil => rfl
  | cons first rest =>
    simp only [hshift, List.mapM_pure]
    rfl

namespace Page

variable (page : Page) (tables : Tables) (p : Point)

def describe (t : Tree) : Checked Descriptor := do
  let text ← page.textOf t
  let start ← page.startPoint t
  let startIndex ← page.indexOfByte t.start
  let stop ← page.endPoint t
  let stopIndex ← page.indexOfByte t.stop
  return ⟨t.kind, text, ⟨start, startIndex⟩, ⟨stop, stopIndex⟩⟩

def describeOption : Option Cursor → Checked (Option Descriptor)
  | none => .ok none
  | some c => do return some (← page.describe c.node)

def familyOf (c : Cursor) : Checked Family := do
  let node ← page.describe c.node
  let parent ← page.describeOption c.parent?
  let children ← c.node.children.mapM page.describe
  return ⟨node, parent, children⟩

def query (command : Query) : Checked (Option Family) := do
  let c ← page.nodeAt p
  let target := match command with
    | .nodeAt => some c
    | .nodeBefore => c.previous?
    | .nodeParent => c.parent?
  match target with
  | some target => return some (← page.familyOf target)
  | none => return none

def startOf : Option Cursor → Checked (Option Point)
  | none => .ok none
  | some c => do return some (← page.startPoint c.node)

def navigate (command : Navigation) : Checked (Option Point) := do
  let scope ← page.enclosingAt tables.scopes p
  match command with
  | .scopeEnd => return some (← page.endPoint ((scope.map Cursor.node).getD page.tree))
  | .scopeStart =>
    match scope with
    | some scope => page.startOf (some scope)
    | none => page.startOf (← page.enclosingAt tables.scopes p.stepLeft)
  | .scopeInto => page.startOf (scope.bind (Cursor.nested? tables.scopes))
  | .scopeOut =>
    page.startOf ((scope.bind Cursor.parent?).bind (Cursor.enclosing? tables.scopes))

def snap (elements : List Tree) : Checked Point :=
  if elements.length < 2 then .ok p
  else do
    let q ← page.toBytePoint p
    match elements.find? fun t => q < page.text.bytePointAt t.stop with
    | some t => page.startPoint t
    | none => return p

def halves (opening closing : Tree) : Checked (Text × Text) := do
  let inner ← page.text.slice opening.stop (max closing.start opening.stop)
  let index ← page.pointIndex p
  let first ← page.indexOfByte opening.stop
  let (byte, _) ← scan .utf16 (index - first) 0 0 inner
  inner.cut byte

def split : Checked (Option Replacement) := do
  let some c ← page.enclosingAt tables.splittable p | return none
  let opening :: rest := c.node.children | return none
  let some closing := rest.getLast? | return none
  let point ← page.snap p rest.dropLast
  let (left, right) ← page.halves point opening closing
  let before ← page.textOf opening
  let after ← page.textOf closing
  let parentKind := (c.parent?.map Cursor.kind).getD ""
  let content := before ++ left ++ after ++ Document.separator tables parentKind ++
    before ++ right ++ after
  let start ← page.startPoint c.node
  let stop ← page.endPoint c.node
  return some ⟨start, stop, content, some point⟩

def child (ts : List Tree) (index : Nat) : Checked Tree :=
  match ts[index]? with
  | some t => .ok t
  | none => .error (.badRange index ts.length)

def barf : Checked (Option Replacement) := do
  let some scope ← page.enclosingAt tables.scopes p | return none
  let children := scope.node.children
  if children.length < 3 then return none
  else
    let delimiter ← child children (← sub children.length 1)
    let element ← child children (← sub children.length 2)
    let gap ← page.text.slice element.stop delimiter.start
    let moved ← page.textOf delimiter
    let excluded ← page.textOf element
    let start ← page.startPoint element
    let stop ← page.endPoint delimiter
    return some ⟨start, stop, moved ++ gap ++ excluded, none⟩

def raiseOver (target unit : Tree) (unitText : Text) : Checked Replacement := do
  let unitStart ← page.startPoint unit
  let start ← page.startPoint target
  let shift ← subSigned start.column unitStart.column
  let stop ← page.endPoint target
  let content ← reindent unitText shift
  return ⟨start, stop, content, none⟩

end Page

end Word

namespace Document

open Word

variable {doc : Document} {tables : Tables}

section Addressed

variable (hdoc : doc.text.size .utf8 + 1 < addressLimit)

include hdoc

end Addressed

end Document

end StructEdit
