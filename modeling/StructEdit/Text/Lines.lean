import StructEdit.Text.Encoding

namespace StructEdit.Text

/-- The lines without their line feeds. -/
def lines : Text → List Text
  | [] => [[]]
  | c :: t =>
    if c = '\n' then [] :: lines t
    else
      match lines t with
      | [] => [[c]]
      | line :: rest => (c :: line) :: rest

theorem lines_ne_nil (t : Text) : lines t ≠ [] := by
  cases t with
  | nil => simp [lines]
  | cons c t =>
    rw [lines]
    split
    · simp
    · split <;> simp

def line? (t : Text) (row : Nat) : Option Text := t.lines[row]?

def lineCount (t : Text) : Nat := t.lines.length

/-- The bytes that follow each line feed, for a text that starts at byte `n`. -/
def startsAfter (n : Nat) : Text → List Nat
  | [] => []
  | c :: t =>
    if c = '\n' then (n + c.utf8Size) :: startsAfter (n + c.utf8Size) t
    else startsAfter (n + c.utf8Size) t

def lineStarts (t : Text) : List Nat := 0 :: startsAfter 0 t

def joinLines : List Text → Text
  | [] => []
  | [line] => line
  | line :: rest => line ++ '\n' :: joinLines rest

end StructEdit.Text
