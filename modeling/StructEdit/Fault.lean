import StructEdit.Text.Encoding

namespace StructEdit

inductive Fault where
  | overflow (value : Int)
  /-- The byte range is inverted, past the end of the text, or ends inside a character. -/
  | badRange (start stop : Nat)
deriving DecidableEq, Repr

/-- A result, or the fault that broke the computation off. -/
abbrev Checked := Except Fault

def Fault.message : Fault → String
  | .overflow value => s!"{value} does not fit in 64 bits"
  | .badRange start stop => s!"bytes {start}..{stop} are not a range of whole characters"

/-- Offsets and columns are below this number. -/
def addressLimit : Nat := 0x10000000000000000

namespace Text

def slice (t : Text) (start stop : Nat) : Checked Text :=
  match t.slice? start stop with
  | some s => .ok s
  | none => .error (.badRange start stop)

def cut (t : Text) (n : Nat) : Checked (Text × Text) :=
  match t.cut? n with
  | some halves => .ok halves
  | none => .error (.badRange n (t.size .utf8))

end Text

end StructEdit
