import StructEdit.Config.Entry

namespace StructEdit

inductive Issue where
  | emptyLanguageList
  | missingField (language : Option String) (field : Field)
  | duplicateLanguage (language : String)
  | unknownGrammar (language : String) (grammar : String)
  | blankCategory (language : String) (field : Field)
deriving DecidableEq, Repr

def Issue.message : Issue → String
  | .emptyLanguageList => "language config contains no languages"
  | .missingField (some language) field =>
    s!"language '{language}' missing required field '{field.label}'"
  | .missingField none field => s!"language missing required field '{field.label}'"
  | .duplicateLanguage language => s!"language '{language}' is declared more than once"
  | .unknownGrammar language grammar =>
    s!"language '{language}' uses unknown grammar '{grammar}'"
  | .blankCategory language field =>
    s!"language '{language}' has a blank category in '{field.label}'"

namespace Entry

/-- A table that is not given has to come from a builtin language. -/
def tableIssues (e : Entry) (field : Field) : Option (List String) → List Issue
  | none => if (Builtin.find? e.key).isNone then [.missingField (some e.key) field] else []
  | some kinds => if kinds.any isBlankName then [.blankCategory e.key field] else []

def grammarIssues (e : Entry) : List Issue :=
  if e.grammar?.isNone then [.unknownGrammar e.key e.grammarName] else []

def delimiterIssues (e : Entry) : List Issue :=
  if e.delimiters.any (isBlankName ·.1) then [.blankCategory e.key .delimiters] else []

def issues (e : Entry) : List Issue :=
  if e.key = "" then [.missingField none .name]
  else
    e.grammarIssues ++ e.tableIssues .scopes e.scopes ++ e.tableIssues .splittable e.splittable
      ++ e.tableIssues .units e.units ++ e.delimiterIssues

end Entry

namespace Config

/-- The issues of the entries, when the keys in `seen` were used before them. -/
def issuesAfter (seen : List String) : List Entry → List Issue
  | [] => []
  | e :: rest =>
    if e.key = "" then e.issues ++ issuesAfter seen rest
    else
      (if seen.contains e.key then [.duplicateLanguage e.key] else [])
        ++ e.issues ++ issuesAfter (e.key :: seen) rest

def issues (config : Config) : List Issue :=
  (if config.isEmpty then [.emptyLanguageList] else []) ++ issuesAfter [] config

def describeIssues (found : List Issue) : String := "\n".intercalate (found.map Issue.message)

end Config

end StructEdit
