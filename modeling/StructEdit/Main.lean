import StructEdit.Cli.Run
import StructEdit.Json.Reader
import StructEdit.Tree.Snapshot

namespace StructEdit.Main

open Cli

def parsesVariable : String := "TREE_CLIMBER_PARSES"

def configFileVariable : String := "TREE_CLIMBER_CONFIG"

def readErrorOf : IO.Error → ReadError
  | .noFileOrDirectory _ _ _ => .notFound
  | .inappropriateType _ 20 _ => .notDirectory
  | .inappropriateType _ _ _ => .isDirectory
  | .invalidArgument _ 36 _ => .nameTooLong
  | _ => .notFound

def readText (path : String) : IO (Except ReadError Text) :=
  try
    return decodeText (← IO.FS.readBinFile path)
  catch e =>
    return .error (readErrorOf e)

def pathsOf (args : List String) (env : Option String) (home : String) : List String :=
  match invocation args with
  | .error _ => []
  | .ok invocation =>
    let file :=
      match invocation.task with
      | .navigate _ _ file => file
      | .operate _ _ _ file => file
      | .query _ _ file => file
      | .languages => none
    [invocation.config, env, some (Config.defaultPath home), file].filterMap id

def readsInput (args : List String) : Bool :=
  match invocation args with
  | .ok ⟨_, .navigate _ _ none⟩ => true
  | .ok ⟨_, .operate _ _ _ none⟩ => true
  | .ok ⟨_, .query _ _ none⟩ => true
  | _ => false

/-- Colours can be forced on or off, and are else used on a terminal. -/
def wantsColor : IO Bool := do
  match ← IO.getEnv "CLICOLOR_FORCE" with
  | some value => if value != "0" then return true
  | none => pure ()
  if (← IO.getEnv "NO_COLOR").isSome then return false
  if (← IO.getEnv "CLICOLOR") == some "0" then return false
  (← IO.getStdout).isTty

def parses : IO Json := do
  match ← IO.getEnv parsesVariable with
  | none => return .object []
  | some path =>
    match ← readText path with
    | .ok text => return (Json.parse? (String.ofList text)).getD (.object [])
    | .error _ => return .object []

def gather (args : List String) : IO Host := do
  let env ← IO.getEnv configFileVariable
  let home := (← IO.getEnv "HOME").getD ""
  let files ← (pathsOf args env home).mapM fun path => do return (path, ← readText path)
  let input ←
    if readsInput args then do
      pure (decodeText (← (← IO.getStdin).readBinToEnd))
    else pure (.ok [])
  let recorded ← parses
  let parser := (Parser.ofJson? recorded).getD fun _ => none
  let read (path : String) := (files.lookup path).getD (.error .notFound)
  return {
    read := read
    isFile := fun path =>
      match read path with
      | .ok _ => true
      | .error e => e == .notText
    home := home
    configVariable := env
    input := input
    color := ← wantsColor
    document := fun _ => (recorded.get? "doc").getD .null
    parser := fun _ => parser }

end StructEdit.Main

def main (args : List String) : IO UInt32 := do
  let host ← StructEdit.Main.gather args
  let outcome := host.run args
  (← IO.getStdout).putStr outcome.output
  (← IO.getStderr).putStr outcome.report
  return outcome.code.toUInt32
