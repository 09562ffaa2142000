import StructEdit.Command
import StructEdit.Json.Basic

namespace StructEdit

def Json.address? (j : Json) : Option Nat := j.nat?.filter (· < addressLimit)

namespace Location

variable {e : Encoding}

def toJson (p : Location e) : Json := .object [("row", .nat p.row), ("column", .nat p.column)]

def ofJson? : Json → Option (Location e)
  | .array [row, column] => do return ⟨← row.address?, ← column.address?⟩
  | .object fields => do
    let row ← fields.lookup "row"
    let column ← fields.lookup "column"
    return ⟨← row.address?, ← column.address?⟩
  | _ => none

end Location

def Text.toJson (t : Text) : Json := .string (String.ofList t)

namespace Replacement

def toJson (r : Replacement) : Json :=
  .object <|
    [("start", r.start.toJson), ("end", r.stop.toJson), ("content", r.content.toJson)]
      ++ (r.point.map fun p => ("point", p.toJson)).toList

def pointOfJson? : Option Json → Option (Option Point)
  | none => some none
  | some .null => some none
  | some j => (Location.ofJson? j).map some

def ofValues? (start stop content : Json) (point : Option Json) : Option Replacement := do
  let start ← Location.ofJson? start
  let stop ← Location.ofJson? stop
  let content ← content.string?
  let point ← pointOfJson? point
  return ⟨start, stop, content.toList, point⟩

/-- A replacement is an object or a list of its values. -/
def ofJson? : Json → Option Replacement
  | .array [start, stop, content] => ofValues? start stop content none
  | .array [start, stop, content, point] => ofValues? start stop content (some point)
  | .object fields => do
    let start ← fields.lookup "start"
    let stop ← fields.lookup "end"
    let content ← fields.lookup "content"
    ofValues? start stop content (fields.lookup "point")
  | _ => none

end Replacement

def Boundary.toJson (b : Boundary) : Json :=
  .object [("pos", b.point.toJson), ("index", .nat b.index)]

def Descriptor.toJson (d : Descriptor) : Json :=
  .object [("category", .string d.kind), ("text", d.text.toJson), ("start", d.start.toJson),
    ("end", d.stop.toJson)]

def Family.toJson (f : Family) : Json :=
  .object [("node", f.node.toJson), ("parent", .ofOption Descriptor.toJson f.parent),
    ("children", .array (f.children.map Descriptor.toJson))]

def Location.arrivalToJson (p : Point) : Json := .object [("point", p.toJson)]

/-- A command is its name, or an object with the name as its only key. -/
def Command.ofJson? {α : Type} [Command α] : Json → Option α
  | .string name => ofWire? name
  | .object [(name, .null)] => ofWire? name
  | _ => none

end StructEdit
