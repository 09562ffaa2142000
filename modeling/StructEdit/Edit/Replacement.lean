import StructEdit.Text.Position

namespace StructEdit

structure Replacement where
  start : Point
  stop : Point
  content : Text
  point : Option Point := none
deriving DecidableEq, Repr

/-- The text after the edit; a range that ends before it starts is empty. -/
def Replacement.apply (r : Replacement) (t : Text) : Checked Text := do
  let start ← t.byteOf r.start
  let stop ← t.byteOf r.stop
  let (before, _) ← t.cut start
  let (_, after) ← t.cut (max stop start)
  return before ++ r.content ++ after

end StructEdit
