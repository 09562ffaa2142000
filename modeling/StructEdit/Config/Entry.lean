import StructEdit.Language.Registry

namespace StructEdit

/-- What an entry can say, in the order in which it is listed without names. -/
inductive Field where
  | name
  | grammar
  | displayName
  | scopes
  | splittable
  | units
  | delimiters
deriving DecidableEq, Repr

namespace Field

def label : Field → String
  | .name => "name"
  | .grammar => "grammar"
  | .displayName => "display_name"
  | .scopes => "scopes"
  | .splittable => "splittable"
  | .units => "units"
  | .delimiters => "delimiters"

def position : Field → Nat
  | .name => 0
  | .grammar => 1
  | .displayName => 2
  | .scopes => 3
  | .splittable => 4
  | .units => 5
  | .delimiters => 6

end Field

structure Entry where
  name : String
  grammarGiven : Option String := none
  displayName : Option String := none
  scopes : Option (List String) := none
  splittable : Option (List String) := none
  units : Option (List String) := none
  delimiters : Delimiters := []

namespace Entry

def key (e : Entry) : String := nameKey e.name

/-- The grammar's name, which is the entry's own where it gives none. -/
def grammarName (e : Entry) : String := trimName (e.grammarGiven.getD e.name)

def grammar? (e : Entry) : Option Grammar := Grammar.ofName? e.grammarName

/-- The language of an entry that has a name, a known grammar and all three tables. -/
def definition? (e : Entry) : Option Definition := do
  if e.key = "" then failure
  let grammar ← e.grammar?
  let base := Builtin.find? e.key
  let scopes ← e.scopes <|> base.map (·.tables.scopes)
  let splittable ← e.splittable <|> base.map (·.tables.splittable)
  let units ← e.units <|> base.map (·.tables.units)
  let delimiters := e.delimiters.overlay ((base.map (·.tables.delimiters)).getD [])
  let displayName := (e.displayName <|> base.map (·.displayName)).getD (trimName e.name)
  return ⟨e.key, displayName, grammar, ⟨scopes, splittable, units, delimiters⟩⟩

end Entry

abbrev Config := List Entry

namespace Config

def definitions (config : Config) : List Definition := config.filterMap Entry.definition?

def registry (config : Config) : Registry :=
  .ofDefinitions (Builtin.definitions ++ config.definitions)

end Config

end StructEdit
