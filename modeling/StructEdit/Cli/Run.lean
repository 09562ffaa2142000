import StructEdit.Cli.Arguments
import StructEdit.Config.Load
import StructEdit.Json.Writer
import StructEdit.Language.Session
import StructEdit.Text.Diff
import StructEdit.Wire

namespace StructEdit.Cli

structure Host where
  read : String → Except ReadError Text
  isFile : String → Bool
  home : String
  configVariable : Option String
  input : Except ReadError Text
  color : Bool
  /-- The document in the text of a configuration file, null if it is none. -/
  document : Text → Json
  parser : Grammar → Parser

structure Outcome where
  code : Nat
  output : String := ""
  report : String := ""

inductive RunError where
  | config (cause : ConfigError)
  | file (name : String) (cause : ReadError)
  | input (cause : ReadError)
  | engine (cause : EngineError)

namespace RunError

def message : RunError → String
  | .config cause => cause.message
  | .file name _ => s!"failed to read {name}"
  | .input _ => "failed to read stdin"
  | .engine cause => cause.message

def cause? : RunError → Option String
  | .config cause => cause.cause?
  | .file _ cause => some cause.message
  | .input cause => some cause.message
  | .engine _ => none

def report (e : RunError) : String :=
  match e.cause? with
  | none => s!"Error: {e.message}\n"
  | some cause =>
    let lines := (cause.splitOn "\n").map ("    " ++ ·)
    s!"Error: {e.message}\n\nCaused by:\n" ++ "\n".intercalate lines ++ "\n"

/-- A computation that breaks off ends the program at once, with a code of its own. -/
def outcome (e : RunError) : Outcome :=
  match e with
  | .engine (.fault cause) => { code := 101, report := cause.message ++ "\n" }
  | _ => { code := 1, report := e.report }

end RunError

def resetStyle : String := "\x1b[0m"

/-- A piece in a style; where the piece resets the style, it is set again. -/
def styled (color : Bool) (style : Nat) (piece : String) : String :=
  if color then
    let set := s!"\x1b[{style}m"
    set ++ (resetStyle ++ set).intercalate (piece.splitOn resetStyle) ++ resetStyle
  else piece

def jsonLine (j : Json) : String := j.pretty ++ "\n"

def diffLine (color : Bool) : Text.Change × Text → String
  | (change, line) =>
    let line := String.ofList (if Text.endsLine line then line else line ++ ['\n'])
    match change with
    | .kept => " " ++ line
    | .removed => styled color 31 ("-" ++ line)
    | .added => styled color 32 ("+" ++ line)

def diffReport (color : Bool) (name : String) (old new : Text) : String :=
  styled color 2 s!"--- {name} (original)" ++ "\n" ++
    styled color 2 s!"+++ {name} (edited)" ++ "\n"
    ++ String.join ((Text.changes old new).map (diffLine color))

def languageLine (color : Bool) (d : Definition) : String :=
  "  " ++ styled color 36 d.name ++ s!" {d.displayName} ({d.grammar.label} grammar)\n"

def languageReport (color : Bool) (registry : Registry) : String :=
  styled color 1 "Available languages:" ++ "\n"
    ++ String.join (registry.definitions.map (languageLine color))

def usage : String :=
  "usage: tree-climber [-v...] [--config PATH] (navigate | operate | query) -l LANG -r ROW "
    ++ "-c COLUMN COMMAND [-d] [FILE]\n       tree-climber [-v...] [--config PATH] languages\n"

namespace Host

variable (host : Host)

def registry (explicit : Option String) : Except RunError Registry :=
  match Config.resolvePath explicit host.configVariable host.home host.isFile with
  | none => .ok .builtin
  | some path =>
    match Config.loadFile path (host.read path) host.document with
    | .ok config => .ok config.registry
    | .error e => .error (.config e)

def source : Option String → Except RunError Text
  | some name => (host.read name).mapError (.file name)
  | none => host.input.mapError .input

def withSource {α : Type} (registry : Registry) (language : String) (file : Option String)
    (command : Parser → Tables → Text → Except EngineError α) : Except RunError (Text × α) := do
  let text ← host.source file
  let (found, _) := Session.get { registry := registry } language
  let profile ← found.mapError .engine
  let definition := profile.definition
  let parser := host.parser definition.grammar
  let result ← (command parser definition.tables text).mapError .engine
  return (text, result)

def perform (registry : Registry) : Task → Except RunError String
  | .navigate target command file => do
    let (_, result) ← host.withSource registry target.language file fun parser tables text =>
      parser.navigate tables text target.point command
    return jsonLine (.ofOption Location.arrivalToJson result)
  | .query target command file => do
    let (_, result) ← host.withSource registry target.language file fun parser _ text =>
      parser.query text target.point command
    return jsonLine (.ofOption Family.toJson result)
  | .operate target command diff file => do
    let (text, result) ← host.withSource registry target.language file fun parser tables text =>
      parser.operate tables text target.point command
    match result, diff with
    | some replacement, true =>
      let edited ← (replacement.apply text).mapError fun cause => .engine (.fault cause)
      return diffReport host.color (file.getD "<stdin>") text edited
    | _, _ => return jsonLine (.ofOption Replacement.toJson result)
  | .languages => return languageReport host.color registry

def run (args : List String) : Outcome :=
  match invocation args with
  | .error .usage => { code := 2, report := usage }
  | .error .version => { code := 0, output := "tree-climber 0.1.0\n" }
  | .ok invocation =>
    let result := do
      let registry ← host.registry invocation.config
      host.perform registry invocation.task
    match result with
    | .ok output => { code := 0, output := output }
    | .error e => e.outcome

end Host

end StructEdit.Cli
