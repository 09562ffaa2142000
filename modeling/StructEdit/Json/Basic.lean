namespace StructEdit

inductive Json where
  | null
  | bool (value : Bool)
  | int (value : Int)
  /-- A number with a point, an exponent or a negative zero, as written. -/
  | decimal (written : String)
  | string (value : String)
  | array (items : List Json)
  | object (fields : List (String × Json))

namespace Json

instance : Inhabited Json := ⟨null⟩

def get? (key : String) : Json → Option Json
  | .object fields => fields.lookup key
  | _ => none

def string? : Json → Option String
  | .string s => some s
  | _ => none

def array? : Json → Option (List Json)
  | .array items => some items
  | _ => none

def object? : Json → Option (List (String × Json))
  | .object fields => some fields
  | _ => none

def int? : Json → Option Int
  | .int n => some n
  | _ => none

def nat? : Json → Option Nat
  | .int (.ofNat n) => some n
  | _ => none

def bool? : Json → Option Bool
  | .bool b => some b
  | _ => none

def strings? (j : Json) : Option (List String) := do
  let items ← j.array?
  items.mapM string?

def nat (n : Nat) : Json := .int n

def ofOption {α : Type} (encode : α → Json) : Option α → Json
  | none => .null
  | some a => encode a

def ofStrings (items : List String) : Json := .array (items.map .string)

end Json

end StructEdit
