import StructEdit.Config.Entry
import StructEdit.Json.Basic

namespace StructEdit

def optionalValue {α : Type} (decode : Json → Option α) : Option Json → Option (Option α)
  | none => some none
  | some j => (decode j).map some

def Delimiters.ofJson? (j : Json) : Option Delimiters := do
  let fields ← j.object?
  fields.mapM fun (kind, value) => do return (kind, ← value.string?)

namespace Entry

def ofValues? (value : Field → Option Json) : Option Entry := do
  let name ← (← value .name).string?
  let grammar ← optionalValue Json.string? (value .grammar)
  let displayName ← optionalValue Json.string? (value .displayName)
  let scopes ← optionalValue Json.strings? (value .scopes)
  let splittable ← optionalValue Json.strings? (value .splittable)
  let units ← optionalValue Json.strings? (value .units)
  let delimiters ← optionalValue Delimiters.ofJson? (value .delimiters)
  return ⟨name, grammar, displayName, scopes, splittable, units, delimiters.getD []⟩

def ofJson? : Json → Option Entry
  | .object fields => ofValues? fun field => fields.lookup field.label
  | .array items => ofValues? fun field => items[field.position]?
  | _ => none

end Entry

/-- The entries under `languages`; a document without them has none. -/
def Config.ofJson? (j : Json) : Option Config := do
  let fields ← j.object?
  match fields.lookup "languages" with
  | none => return []
  | some languages => (← languages.array?).mapM Entry.ofJson?

end StructEdit
