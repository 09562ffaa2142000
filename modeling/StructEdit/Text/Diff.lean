import StructEdit.Text.Encoding

namespace StructEdit.Text

/-- The lines with their endings, each a line feed, a carriage return or both. -/
def terminatedLines : Text → List Text
  | [] => []
  | c :: t =>
    let rest := terminatedLines t
    if c = '\n' || (c = '\r' && t.head? ≠ some '\n') then [c] :: rest
    else
      match rest with
      | [] => [[c]]
      | line :: more => (c :: line) :: more

inductive Change where
  | kept
  | removed
  | added
deriving DecidableEq, Repr

def sharedStart : List Text → List Text → Nat
  | a :: as, b :: bs => if a = b then sharedStart as bs + 1 else 0
  | _, _ => 0

def changes (old new : Text) : List (Change × Text) :=
  let old := terminatedLines old
  let new := terminatedLines new
  let start := sharedStart old new
  let old' := old.drop start
  let new' := new.drop start
  let stop := sharedStart old'.reverse new'.reverse
  (old.take start).map (Change.kept, ·)
    ++ (old'.take (old'.length - stop)).map (Change.removed, ·)
    ++ (new'.take (new'.length - stop)).map (Change.added, ·)
    ++ (old'.drop (old'.length - stop)).map (Change.kept, ·)

def endsLine (line : Text) : Bool :=
  match line.getLast? with
  | some c => c = '\n' || c = '\r'
  | none => false

end StructEdit.Text
