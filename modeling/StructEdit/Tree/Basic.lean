namespace StructEdit

structure Span where
  start : Nat
  stop : Nat
deriving DecidableEq, Repr

/-- A node; `missing` marks one that the parser put in where the text has nothing. -/
inductive Tree where
  | node (kind : String) (span : Span) (missing : Bool) (children : List Tree)

namespace Tree

def kind : Tree → String
  | node kind _ _ _ => kind

def span : Tree → Span
  | node _ span _ _ => span

def missing : Tree → Bool
  | node _ _ missing _ => missing

def children : Tree → List Tree
  | node _ _ _ children => children

def start (t : Tree) : Nat := t.span.start

def stop (t : Tree) : Nat := t.span.stop

instance : Inhabited Tree := ⟨node "" ⟨0, 0⟩ false []⟩

mutual

def decEq : (t u : Tree) → Decidable (t = u)
  | node kind span missing children, node kind' span' missing' children' =>
    match decEqAll children children' with
    | isTrue h =>
      decidable_of_iff (kind = kind' ∧ span = span' ∧ missing = missing')
        ⟨fun ⟨h₁, h₂, h₃⟩ => h₁ ▸ h₂ ▸ h₃ ▸ h ▸ rfl, fun h => by cases h; exact ⟨rfl, rfl, rfl⟩⟩
    | isFalse h => isFalse fun he => h (by cases he; rfl)

def decEqAll : (ts us : List Tree) → Decidable (ts = us)
  | [], [] => isTrue rfl
  | [], _ :: _ => isFalse (nomatch ·)
  | _ :: _, [] => isFalse (nomatch ·)
  | t :: ts, u :: us =>
    match decEq t u, decEqAll ts us with
    | isTrue h, isTrue h' => isTrue (h ▸ h' ▸ rfl)
    | isFalse h, _ => isFalse fun he => h (List.cons.inj he).1
    | _, isFalse h => isFalse fun he => h (List.cons.inj he).2

end

instance : DecidableEq Tree := decEq

def hasKind (kinds : List String) (t : Tree) : Bool := kinds.contains t.kind

mutual

/-- All nodes, each before its children and the children in order. -/
def preorder : Tree → List Tree
  | t@(node _ _ _ children) => t :: preorderAll children

def preorderAll : List Tree → List Tree
  | [] => []
  | t :: rest => preorder t ++ preorderAll rest

end

theorem preorderAll_eq (ts : List Tree) : preorderAll ts = ts.flatMap preorder := by
  induction ts with
  | nil => rfl
  | cons t ts ih => rw [preorderAll, ih, List.flatMap_cons]

end Tree

end StructEdit
