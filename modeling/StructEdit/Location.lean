import StructEdit.Text.Encoding

namespace StructEdit

/-- A zero-based row and a zero-based column in that row, counted by `e`. -/
structure Location (e : Encoding) where
  row : Nat
  column : Nat
deriving DecidableEq, Repr

abbrev Point := Location .utf16

abbrev BytePoint := Location .utf8

namespace Location

variable {e : Encoding}

def origin : Location e := ⟨0, 0⟩

instance : Inhabited (Location e) := ⟨origin⟩

instance : LE (Location e) :=
  ⟨fun p q => p.row < q.row ∨ p.row = q.row ∧ p.column ≤ q.column⟩

instance : LT (Location e) :=
  ⟨fun p q => p.row < q.row ∨ p.row = q.row ∧ p.column < q.column⟩

theorem le_def {p q : Location e} :
    p ≤ q ↔ p.row < q.row ∨ p.row = q.row ∧ p.column ≤ q.column := Iff.rfl

theorem lt_def {p q : Location e} :
    p < q ↔ p.row < q.row ∨ p.row = q.row ∧ p.column < q.column := Iff.rfl

instance (p q : Location e) : Decidable (p ≤ q) := decidable_of_iff _ le_def.symm

instance (p q : Location e) : Decidable (p < q) := decidable_of_iff _ lt_def.symm

def compare (p q : Location e) : Ordering :=
  if p < q then .lt else if q < p then .gt else .eq

def stepLeft (p : Location e) : Location e := ⟨p.row, p.column - 1⟩

/-- The place after reading one character; only a line feed starts a row. -/
def advance (p : Location e) (c : Char) : Location e :=
  if c = '\n' then ⟨p.row + 1, 0⟩ else ⟨p.row, p.column + e.size c⟩

def describe (p : Location e) : String := s!"{p.row}:{p.column}"

end Location

namespace Text

variable {e : Encoding}

def endLocation (e : Encoding) (t : Text) : Location e := t.foldl Location.advance .origin

/-- What is read from `p` on until `target` is reached, all of the text if it never is. -/
def reach (target : Location e) : Location e → Text → Text
  | _, [] => []
  | p, c :: t => if target ≤ p then [] else c :: reach target (p.advance c) t

end Text

end StructEdit
