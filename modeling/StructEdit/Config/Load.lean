import StructEdit.Config.Decode
import StructEdit.Config.Validation
import StructEdit.Files

namespace StructEdit

inductive ConfigError where
  | unreadable (path : String) (cause : ReadError)
  | malformed (path : Option String)
  | invalid (path : Option String) (issues : List Issue)
deriving DecidableEq, Repr

namespace ConfigError

def origin : Option String → String
  | some path => s!" ({path})"
  | none => ""

def message : ConfigError → String
  | .unreadable path cause => s!"failed to read language config from {path}: {cause.message}"
  | .malformed path => "failed to parse language config TOML" ++ origin path
  | .invalid path issues =>
    "invalid language config" ++ origin path ++ ": " ++ Config.describeIssues issues

def cause? : ConfigError → Option String
  | .unreadable _ cause => some cause.message
  | .malformed _ => none
  | .invalid _ issues => some (Config.describeIssues issues)

end ConfigError

namespace Config

/-- The configuration of a parsed document, null for a text that is not one. -/
def load (path : Option String) (document : Json) : Except ConfigError Config :=
  match ofJson? document with
  | none => .error (.malformed path)
  | some config =>
    match config.issues with
    | [] => .ok config
    | found => .error (.invalid path found)

def loadFile (path : String) (content : Except ReadError Text) (parse : Text → Json) :
    Except ConfigError Config :=
  match content with
  | .ok text => load (some path) (parse text)
  | .error cause => .error (.unreadable path cause)

def joinPath (directory name : String) : String :=
  if directory.isEmpty || directory.endsWith "/" then directory ++ name
  else directory ++ "/" ++ name

def defaultPath (home : String) : String :=
  joinPath home ".config/tree-climber/languages.toml"

/-- The file asked for, else the one that the environment names, else the default if it is a
file. -/
def resolvePath (explicit env : Option String) (home : String) (isFile : String → Bool) :
    Option String :=
  match explicit with
  | some path => some path
  | none =>
    match env.filter (!·.isEmpty) with
    | some path => some path
    | none => if isFile (defaultPath home) then some (defaultPath home) else none

end Config

end StructEdit
