import StructEdit.Json.Basic

namespace StructEdit.Json

def hexChar (n : Nat) : Char := if n < 10 then Char.ofNat (0x30 + n) else Char.ofNat (0x57 + n)

def escapeChar (c : Char) : String :=
  if c = '"' then "\\\""
  else if c = '\\' then "\\\\"
  else if c = '\n' then "\\n"
  else if c = '\r' then "\\r"
  else if c = '\t' then "\\t"
  else if c.toNat = 0x08 then "\\b"
  else if c.toNat = 0x0C then "\\f"
  else if c.toNat < 0x20 then
    String.ofList ['\\', 'u', '0', '0', hexChar (c.toNat / 16), hexChar (c.toNat % 16)]
  else String.singleton c

def quote (s : String) : String :=
  "\"" ++ s.toList.foldl (fun out c => out ++ escapeChar c) "" ++ "\""

def atomText : Json → String
  | .null => "null"
  | .bool true => "true"
  | .bool false => "false"
  | .int n => toString n
  | .decimal written => written
  | .string s => quote s
  | _ => ""

mutual

def compact : Json → String
  | .array items => "[" ++ compactItems items ++ "]"
  | .object fields => "\x7b" ++ compactFields fields ++ "\x7d"
  | j => atomText j

def compactItems : List Json → String
  | [] => ""
  | [j] => compact j
  | j :: rest => compact j ++ "," ++ compactItems rest

def compactFields : List (String × Json) → String
  | [] => ""
  | [(key, j)] => quote key ++ ":" ++ compact j
  | (key, j) :: rest => quote key ++ ":" ++ compact j ++ "," ++ compactFields rest

end

def newLine (depth : Nat) : String := "\n" ++ String.ofList (List.replicate (2 * depth) ' ')

mutual

/-- The value with each item and field on a line of its own, inside `depth` others. -/
def indented (depth : Nat) : Json → String
  | .array [] => "[]"
  | .array items => "[" ++ indentedItems (depth + 1) items ++ newLine depth ++ "]"
  | .object [] => "\x7b\x7d"
  | .object fields => "\x7b" ++ indentedFields (depth + 1) fields ++ newLine depth ++ "\x7d"
  | j => atomText j

def indentedItems (depth : Nat) : List Json → String
  | [] => ""
  | [j] => newLine depth ++ indented depth j
  | j :: rest => newLine depth ++ indented depth j ++ "," ++ indentedItems depth rest

def indentedFields (depth : Nat) : List (String × Json) → String
  | [] => ""
  | [(key, j)] => newLine depth ++ quote key ++ ": " ++ indented depth j
  | (key, j) :: rest =>
    newLine depth ++ quote key ++ ": " ++ indented depth j ++ "," ++ indentedFields depth rest

end

def pretty (j : Json) : String := indented 0 j

end StructEdit.Json
