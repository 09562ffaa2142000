namespace StructEdit

/-- Texts put between the two halves of a split node, by the kind of its parent. -/
abbrev Delimiters := List (String × String)

namespace Delimiters

/-- The delimiters of `own`, and those of `base` for all other kinds. -/
def overlay (own base : Delimiters) : Delimiters :=
  own ++ base.filter fun entry => (own.lookup entry.1).isNone

end Delimiters

structure Tables where
  scopes : List String := []
  splittable : List String := []
  units : List String := []
  delimiters : Delimiters := []
deriving DecidableEq

/-- The delimiter for halves inside a node of the given kind, a space where none is set. -/
def Tables.delimiterFor (tables : Tables) (kind : String) : String :=
  (tables.delimiters.lookup kind).getD " "

end StructEdit
