import StructEdit.Text.Encoding

namespace StructEdit.Text

/-- Each character of `a` with the first free equal one of `b` within `window` places. -/
def partners (a b : Text) (window : Nat) : List (Nat × Nat) :=
  let step (state : List (Char × Nat) × List (Nat × Nat)) (entry : Char × Nat) :=
    let (free, found) := state
    let (c, i) := entry
    let near := fun (d, j) => c == d && decide (i ≤ j + window) && decide (j ≤ i + window)
    match free.find? near with
    | some (_, j) => (free.filter (·.2 != j), found ++ [(i, j)])
    | none => (free, found)
  (a.zipIdx.foldl step (b.zipIdx, [])).2

def jaro (a b : Text) : Float :=
  if a.isEmpty && b.isEmpty then 1.0
  else
    let found := partners a b (max a.length b.length / 2 - 1)
    if found.isEmpty then 0.0
    else
      let left := found.filterMap fun (i, _) => a[i]?
      let right := (b.zipIdx.filter fun (_, j) => found.any (·.2 == j)).map Prod.fst
      let displaced := (left.zip right).countP fun (c, d) => c != d
      let m := Float.ofNat found.length
      let t := Float.ofNat (displaced / 2)
      (m / Float.ofNat a.length + m / Float.ofNat b.length + (m - t) / m) / 3.0

def commonStart : Text → Text → Nat
  | c :: a, d :: b => if c = d then commonStart a b + 1 else 0
  | _, _ => 0

/-- The Jaro similarity, raised for up to four common first characters if above 0.7. -/
def similarity (a b : Text) : Float :=
  let s := jaro a b
  if s > 0.7 then s + (0.1 * Float.ofNat (min 4 (commonStart a b))) * (1.0 - s) else s

end StructEdit.Text
