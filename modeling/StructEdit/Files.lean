import StructEdit.Text.Encoding

namespace StructEdit

inductive ReadError where
  | notFound
  | notDirectory
  | isDirectory
  | nameTooLong
  | notAName
  | notText
deriving DecidableEq, Repr

def ReadError.message : ReadError → String
  | .notFound => "No such file or directory (os error 2)"
  | .notDirectory => "Not a directory (os error 20)"
  | .isDirectory => "Is a directory (os error 21)"
  | .nameTooLong => "File name too long (os error 36)"
  | .notAName => "file name contained an unexpected NUL byte"
  | .notText => "stream did not contain valid UTF-8"

def decodeText (bytes : ByteArray) : Except ReadError Text :=
  match String.fromUTF8? bytes with
  | some s => .ok s.toList
  | none => .error .notText

/-- Files by their names relative to the working directory. -/
structure Files where
  entries : List (String × Except ReadError Text)

namespace Files

def parts (path : String) : List String :=
  (path.splitOn "/").filter fun name => name != "" && name != "."

inductive Place where
  /-- Somewhere in the working directory, by the names on the way from the inside out. -/
  | inside (names : List String)
  /-- A directory around the working directory. -/
  | outside
deriving DecidableEq, Repr

def fileAt? (files : Files) : Place → Option (Except ReadError Text)
  | .inside names =>
    (files.entries.find? fun entry => (parts entry.1).reverse == names).map Prod.snd
  | .outside => none

def isDirectoryAt (files : Files) : Place → Bool
  | .inside [] => true
  | .inside names =>
    files.entries.any fun entry =>
      let path := parts entry.1
      decide (names.length < path.length) && names.reverse.isPrefixOf path
  | .outside => true

def Place.outer : Place → Place
  | .inside (_ :: names) => .inside names
  | _ => .outside

def entryOf? (files : Files) (name : String) : Place → Option Place
  | .inside names =>
    let next := Place.inside (name :: names)
    if files.isDirectoryAt next || (files.fileAt? next).isSome then some next else none
  | .outside => none

def nameLimit : Nat := 255

def pathLimit : Nat := 4096

def walk (files : Files) : Place → List String → Except ReadError Place
  | place, [] => .ok place
  | place, name :: rest =>
    if !files.isDirectoryAt place then .error .notDirectory
    else if name == ".." then walk files place.outer rest
    else if nameLimit < name.utf8ByteSize then .error .nameTooLong
    else
      match files.entryOf? name place with
      | some next => walk files next rest
      | none => .error .notFound

def read (files : Files) (path : String) : Except ReadError Text := do
  if path.toList.contains '\x00' then throw .notAName
  if path.isEmpty then throw .notFound
  if pathLimit ≤ path.utf8ByteSize then throw .nameTooLong
  let start : Place := if path.startsWith "/" then .outside else .inside []
  let place ← files.walk start (parts path)
  match files.fileAt? place with
  | none => throw .isDirectory
  | some content =>
    if path.endsWith "/" || path.endsWith "/." then throw .notDirectory
    content

def isFile (files : Files) (path : String) : Bool :=
  match files.read path with
  | .ok _ => true
  | .error e => e == .notText

end Files

end StructEdit
