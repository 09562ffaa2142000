import StructEdit.Command

namespace StructEdit.Cli

structure Target where
  language : String
  point : Point
deriving DecidableEq, Repr

inductive Task where
  | navigate (target : Target) (command : Navigation) (file : Option String)
  | operate (target : Target) (command : Operation) (diff : Bool) (file : Option String)
  | query (target : Target) (command : Query) (file : Option String)
  | languages
deriving DecidableEq, Repr

structure Invocation where
  config : Option String
  task : Task
deriving DecidableEq, Repr

inductive Subcommand where
  | navigate
  | operate
  | query
  | languages
deriving DecidableEq, Repr

def Subcommand.ofName? : String → Option Subcommand
  | "navigate" => some .navigate
  | "operate" => some .operate
  | "query" => some .query
  | "languages" => some .languages
  | _ => none

inductive Switch where
  | verbose
  | version
  | diff
  | config
  | lang
  | row
  | column
deriving DecidableEq, Repr

namespace Switch

def takesValue : Switch → Bool
  | .verbose | .version | .diff => false
  | _ => true

def long : Switch → String
  | .verbose => "verbose"
  | .version => "version"
  | .diff => "diff"
  | .config => "config"
  | .lang => "lang"
  | .row => "row"
  | .column => "column"

def short? : Switch → Option Char
  | .verbose => some 'v'
  | .version => some 'V'
  | .diff => some 'd'
  | .config => none
  | .lang => some 'l'
  | .row => some 'r'
  | .column => some 'c'

end Switch

def switches : Option Subcommand → List Switch
  | none => [.verbose, .config, .version]
  | some .languages => [.verbose, .config]
  | some .operate => [.verbose, .config, .lang, .row, .column, .diff]
  | some _ => [.verbose, .config, .lang, .row, .column]

/-- A number is digits, after a plus sign or not, that make less than 2^64. -/
def number? (s : String) : Option Nat :=
  let digits :=
    match s.toList with
    | '+' :: digits => digits
    | digits => digits
  if digits.isEmpty || !digits.all Char.isDigit then none
  else
    let n := digits.foldl (fun n c => n * 10 + (c.toNat - '0'.toNat)) 0
    if n < addressLimit then some n else none

structure Given where
  config : Option String := none
  language : Option String := none
  row : Option Nat := none
  column : Option Nat := none
  diff : Bool := false
  values : List String := []

inductive Stop where
  | usage
  | version
deriving DecidableEq, Repr

namespace Given

def takeSwitch (g : Given) : Switch → Except Stop Given
  | .verbose => .ok g
  | .version => .error .version
  | .diff => if g.diff then .error .usage else .ok { g with diff := true }
  | _ => .error .usage

def takeValue (g : Given) (switch : Switch) (value : String) : Except Stop Given :=
  match switch with
  | .config =>
    if g.config.isSome || value.isEmpty then .error .usage
    else .ok { g with config := some value }
  | .lang =>
    if g.language.isSome then .error .usage else .ok { g with language := some value }
  | .row =>
    match number? value, g.row with
    | some n, none => .ok { g with row := some n }
    | _, _ => .error .usage
  | .column =>
    match number? value, g.column with
    | some n, none => .ok { g with column := some n }
    | _, _ => .error .usage
  | _ => .error .usage

/-- Takes letters after a dash; the first that wants a value gets all the letters after it. -/
def takeLetters (allowed : List Switch) (g : Given) :
    List Char → Except Stop (Given × Option Switch)
  | [] => .ok (g, none)
  | c :: rest =>
    match allowed.find? (·.short? = some c) with
    | none => .error .usage
    | some switch =>
      if switch.takesValue then
        match rest with
        | [] => .ok (g, some switch)
        | '=' :: value => do return (← g.takeValue switch (String.ofList value), none)
        | value => do return (← g.takeValue switch (String.ofList value), none)
      else do takeLetters allowed (← g.takeSwitch switch) rest

def takeLong (allowed : List Switch) (g : Given) (written : List Char) :
    Except Stop (Given × Option Switch) :=
  let name := String.ofList (written.takeWhile (· ≠ '='))
  match allowed.find? (·.long == name), written.dropWhile (· ≠ '=') with
  | none, _ => .error .usage
  | some switch, [] =>
    if switch.takesValue then .ok (g, some switch)
    else do return (← g.takeSwitch switch, none)
  | some switch, _ :: value =>
    if switch.takesValue then do return (← g.takeValue switch (String.ofList value), none)
    else .error .usage

end Given

/-- How an argument looks; a dash alone is a plain value. -/
inductive Shape where
  | divider
  | long (written : List Char)
  | letters (written : List Char)
  | plain

def shapeOf (arg : String) : Shape :=
  match arg.toList with
  | ['-', '-'] => .divider
  | '-' :: '-' :: written => .long written
  | ['-'] => .plain
  | '-' :: written => .letters written
  | _ => .plain

/-- The arguments after the subcommand; `pending` is the option that waits for its value. -/
def readRest (allowed : List Switch) (g : Given) (pending : Option Switch) :
    List String → Except Stop Given
  | [] => if pending.isSome then .error .usage else .ok g
  | arg :: args =>
    match shapeOf arg, pending with
    | .plain, some switch => do readRest allowed (← g.takeValue switch arg) none args
    | _, some _ => .error .usage
    | .plain, none => readRest allowed { g with values := arg :: g.values } none args
    | .divider, none => .ok { g with values := args.reverse ++ g.values }
    | .long written, none => do
      let (g, pending) ← g.takeLong allowed written
      readRest allowed g pending args
    | .letters written, none => do
      let (g, pending) ← g.takeLetters allowed written
      readRest allowed g pending args

/-- The arguments up to the subcommand, what was given there, and the arguments after it. -/
def readFirst (g : Given) (pending : Option Switch) :
    List String → Except Stop (Given × Subcommand × List String)
  | [] => .error .usage
  | arg :: args =>
    match shapeOf arg, pending with
    | .plain, some switch => do readFirst (← g.takeValue switch arg) none args
    | _, some _ => .error .usage
    | .plain, none =>
      match Subcommand.ofName? arg with
      | some subcommand => .ok (g, subcommand, args)
      | none => .error .usage
    | .divider, none => .error .usage
    | .long written, none => do
      let (g, pending) ← g.takeLong (switches none) written
      readFirst g pending args
    | .letters written, none => do
      let (g, pending) ← g.takeLetters (switches none) written
      readFirst g pending args

namespace Given

def target? (g : Given) : Option Target := do
  return ⟨← g.language, ⟨← g.row, ← g.column⟩⟩

def command? {α : Type} [Command α] (g : Given) : Option (α × Option String) :=
  match g.values.reverse with
  | [name] => do return (← Command.ofCli? name, none)
  | [name, file] => if file.isEmpty then none else do return (← Command.ofCli? name, some file)
  | _ => none

def task? (g : Given) : Subcommand → Option Task
  | .navigate => do
    let (command, file) ← g.command?
    return .navigate (← g.target?) command file
  | .operate => do
    let (command, file) ← g.command?
    return .operate (← g.target?) command g.diff file
  | .query => do
    let (command, file) ← g.command?
    return .query (← g.target?) command file
  | .languages => if g.values.isEmpty then some .languages else none

end Given

/-- What the arguments ask for; a configuration named after the subcommand goes first. -/
def invocation (args : List String) : Except Stop Invocation := do
  let (outer, subcommand, rest) ← readFirst {} none args
  let inner ← readRest (switches (some subcommand)) {} none rest
  match inner.task? subcommand with
  | some task => return ⟨inner.config <|> outer.config, task⟩
  | none => throw .usage

end StructEdit.Cli
