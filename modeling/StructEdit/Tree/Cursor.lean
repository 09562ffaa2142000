import StructEdit.Tree.Basic

namespace StructEdit

/-- One step up: the parent and the place of the child among its children. -/
structure Step where
  parent : Tree
  index : Nat
deriving DecidableEq

/-- A node and the steps from it up to the root, nearest first. -/
structure Cursor where
  node : Tree
  trail : List Step
deriving DecidableEq

namespace Cursor

def atRoot (t : Tree) : Cursor := ⟨t, []⟩

def kind (c : Cursor) : String := c.node.kind

def hasKind (kinds : List String) (c : Cursor) : Bool := c.node.hasKind kinds

def parent? : Cursor → Option Cursor
  | ⟨_, []⟩ => none
  | ⟨_, step :: trail⟩ => some ⟨step.parent, trail⟩

def alongTrail : List Step → List Cursor
  | [] => []
  | step :: trail => ⟨step.parent, trail⟩ :: alongTrail trail

def ancestors (c : Cursor) : List Cursor := alongTrail c.trail

def previous? : Cursor → Option Cursor
  | ⟨_, ⟨parent, index + 1⟩ :: trail⟩ =>
    parent.children[index]?.map fun t => ⟨t, ⟨parent, index⟩ :: trail⟩
  | _ => none

/-- The nearest node of one of the kinds, this one included. -/
def enclosing? (kinds : List String) (c : Cursor) : Option Cursor :=
  (c :: c.ancestors).find? (hasKind kinds)

mutual

def belowTree : Tree → List Step → List Cursor
  | t@(.node _ _ _ children), trail => belowList t trail 0 children

def belowList (parent : Tree) (trail : List Step) : Nat → List Tree → List Cursor
  | _, [] => []
  | index, t :: rest =>
    ⟨t, ⟨parent, index⟩ :: trail⟩ :: belowTree t (⟨parent, index⟩ :: trail)
      ++ belowList parent trail (index + 1) rest

end

def below (c : Cursor) : List Cursor := belowTree c.node c.trail

mutual

/-- The first node of one of the kinds below a tree, in preorder. -/
def nestedTree? (kinds : List String) : Tree → List Step → Option Cursor
  | t@(.node _ _ _ children), trail => nestedList? kinds t trail 0 children

def nestedList? (kinds : List String) (parent : Tree) (trail : List Step) :
    Nat → List Tree → Option Cursor
  | _, [] => none
  | index, t :: rest =>
    let step : Step := ⟨parent, index⟩
    if t.hasKind kinds then some ⟨t, step :: trail⟩
    else
      match nestedTree? kinds t (step :: trail) with
      | some found => some found
      | none => nestedList? kinds parent trail (index + 1) rest

end

def nested? (kinds : List String) (c : Cursor) : Option Cursor :=
  nestedTree? kinds c.node c.trail

end Cursor

end StructEdit
