import StructEdit.Text.Position
import StructEdit.Tree.Cursor

namespace StructEdit.Tree

/-- Whether a node lies before the place; one that ends at it does, unless it is empty. -/
def endsBefore (text : Text) (q : BytePoint) (t : Tree) : Bool :=
  let stop := text.bytePointAt t.stop
  stop < q || (stop = q && text.bytePointAt t.start ≠ stop)

mutual

def descend (text : Text) (q : BytePoint) : Tree → List Step → Cursor
  | t@(node _ _ _ children), trail => descendList text q t trail 0 children

def descendList (text : Text) (q : BytePoint) (parent : Tree) (trail : List Step) :
    Nat → List Tree → Cursor
  | _, [] => ⟨parent, trail⟩
  | index, t :: rest =>
    if t.endsBefore text q then descendList text q parent trail (index + 1) rest
    else if q < text.bytePointAt t.start then ⟨parent, trail⟩
    else descend text q t (⟨parent, index⟩ :: trail)

end

/-- Positions in a tree are 32-bit numbers; a row or column to look up is cut to one. -/
def lookupLimit : Nat := 0x100000000

def deepestAt (text : Text) (t : Tree) (q : BytePoint) : Cursor :=
  descend text ⟨q.row % lookupLimit, q.column % lookupLimit⟩ t []

end StructEdit.Tree
