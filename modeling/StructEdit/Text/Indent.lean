import StructEdit.Text.Blank
import StructEdit.Text.Lines

namespace StructEdit.Text

/-- A line moved left by `n` characters, if it starts with that many blanks. -/
def dedentLine (n : Nat) (line : Text) : Text :=
  if n ≤ line.length && (line.take n).all isBlank then line.drop n else line

def shiftLine (shift : Int) (line : Text) : Text :=
  if shift < 0 then dedentLine shift.natAbs line else List.replicate shift.natAbs ' ' ++ line

/-- The text with every line after the first moved by `shift` columns. -/
def reindent (t : Text) (shift : Int) : Text :=
  match t.lines with
  | [] => []
  | first :: rest => joinLines (first :: rest.map (shiftLine shift))

end StructEdit.Text
