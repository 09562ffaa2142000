import StructEdit.Fault
import StructEdit.Location
import StructEdit.Text.Lines

namespace StructEdit.Text

/-- The byte point of an editor point; a column inside a surrogate pair moves to its end. -/
def toBytePoint (t : Text) (p : Point) : Checked BytePoint :=
  match t.line? p.row with
  | none => .ok ⟨p.row, p.column⟩
  | some line =>
    let column := line.convert .utf16 .utf8 p.column
    if column < addressLimit then .ok ⟨p.row, column⟩ else .error (.overflow column)

def toPoint (t : Text) (q : BytePoint) : Point :=
  match t.line? q.row with
  | none => ⟨q.row, q.column⟩
  | some line => ⟨q.row, line.convert .utf8 .utf16 q.column⟩

def bytePointAt (t : Text) (n : Nat) : BytePoint := endLocation .utf8 (t.upTo .utf8 n)

def indexOfByte (t : Text) (n : Nat) : Nat := size .utf16 (t.upTo .utf8 n)

def byteOfUnits (t : Text) (n : Nat) : Nat := size .utf8 (t.upTo .utf16 n)

/-- The byte offset of an editor point, at most the end of its line and of the text. -/
def byteOf (t : Text) (p : Point) : Checked Nat :=
  match t.lineStarts[p.row]?, t.line? p.row with
  | some start, some line => do
    let q ← t.toBytePoint p
    return start + min q.column (line.size .utf8)
  | _, _ => .ok (t.size .utf8)

end StructEdit.Text
