import StructEdit.Tree.Basic

namespace StructEdit.Tree

def isError (t : Tree) : Bool := t.kind == "ERROR" || t.missing

mutual

/-- The error nodes in preorder; one inside another is listed too. -/
def errors : Tree → List Tree
  | t@(node _ _ _ children) =>
    if t.isError then t :: errorsAll children else errorsAll children

def errorsAll : List Tree → List Tree
  | [] => []
  | t :: rest => errors t ++ errorsAll rest

end

mutual

def hasErrors : Tree → Bool
  | t@(node _ _ _ children) => t.isError || anyErrors children

def anyErrors : List Tree → Bool
  | [] => false
  | t :: rest => hasErrors t || anyErrors rest

end

end StructEdit.Tree
