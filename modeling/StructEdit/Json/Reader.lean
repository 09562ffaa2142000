import StructEdit.Json.Basic

namespace StructEdit.Json

inductive Mark where
  | leftBrace
  | rightBrace
  | leftBracket
  | rightBracket
  | comma
  | colon
deriving DecidableEq, Repr

inductive Token where
  | mark (m : Mark)
  | string (value : String)
  /-- A number or one of the words `null`, `true` and `false`. -/
  | word (written : List Char)
deriving DecidableEq, Repr

/-- Where the reader stands inside a token; what it has read of it is kept backwards. -/
inductive LexState where
  | between
  | word (read : List Char)
  | string (read : List Nat)
  | escape (read : List Nat)
  | hex (read : List Nat) (left : Nat) (value : Nat)
deriving Repr

def mark? : Char → Option Mark
  | '\x7b' => some .leftBrace
  | '\x7d' => some .rightBrace
  | '[' => some .leftBracket
  | ']' => some .rightBracket
  | ',' => some .comma
  | ':' => some .colon
  | _ => none

def isSpace (c : Char) : Bool := c = ' ' || c = '\t' || c = '\n' || c = '\r'

def hexDigit? (c : Char) : Option Nat :=
  if '0' ≤ c && c ≤ '9' then some (c.toNat - '0'.toNat)
  else if 'a' ≤ c && c ≤ 'f' then some (c.toNat - 'a'.toNat + 10)
  else if 'A' ≤ c && c ≤ 'F' then some (c.toNat - 'A'.toNat + 10)
  else none

def escaped? : Char → Option Nat
  | '"' => some 0x22
  | '\\' => some 0x5C
  | '/' => some 0x2F
  | 'b' => some 0x08
  | 'f' => some 0x0C
  | 'n' => some 0x0A
  | 'r' => some 0x0D
  | 't' => some 0x09
  | _ => none

/-- Characters from code points, where two escapes may give the halves of a surrogate pair. -/
def joinPairs : List Nat → Option (List Char)
  | [] => some []
  | [u] => if 0xD800 ≤ u && u < 0xE000 then none else some [Char.ofNat u]
  | u :: v :: rest =>
    if 0xD800 ≤ u && u < 0xDC00 then
      if 0xDC00 ≤ v && v < 0xE000 then
        (joinPairs rest).map (Char.ofNat (0x10000 + (u - 0xD800) * 0x400 + (v - 0xDC00)) :: ·)
      else none
    else if 0xDC00 ≤ u && u < 0xE000 then none
    else (joinPairs (v :: rest)).map (Char.ofNat u :: ·)

def lexBetween (tokens : List Token) (c : Char) : LexState × List Token :=
  match mark? c with
  | some m => (.between, .mark m :: tokens)
  | none =>
    if isSpace c then (.between, tokens)
    else if c = '"' then (.string [], tokens)
    else (.word [c], tokens)

def lexStep : LexState × List Token → Char → Option (LexState × List Token)
  | (.between, tokens), c => some (lexBetween tokens c)
  | (.word read, tokens), c =>
    if isSpace c || (mark? c).isSome || c = '"' then
      some (lexBetween (.word read.reverse :: tokens) c)
    else some (.word (c :: read), tokens)
  | (.string read, tokens), c =>
    if c = '"' then
      (joinPairs read.reverse).map fun s => (.between, .string (String.ofList s) :: tokens)
    else if c = '\\' then some (.escape read, tokens)
    else if c.toNat < 0x20 then none
    else some (.string (c.toNat :: read), tokens)
  | (.escape read, tokens), c =>
    if c = 'u' then some (.hex read 4 0, tokens)
    else (escaped? c).map fun n => (.string (n :: read), tokens)
  | (.hex read left value, tokens), c =>
    (hexDigit? c).map fun d =>
      let value := value * 16 + d
      if left ≤ 1 then (.string (value :: read), tokens)
      else (.hex read (left - 1) value, tokens)

def tokens? (t : List Char) : Option (List Token) := do
  let (state, tokens) ← t.foldlM lexStep (LexState.between, [])
  match state with
  | .between => some tokens.reverse
  | .word read => some (Token.word read.reverse :: tokens).reverse
  | _ => none

def isFraction : List Char → Bool
  | [] => true
  | '.' :: digits => !digits.isEmpty && digits.all Char.isDigit
  | _ => false

def isExponent : List Char → Bool
  | [] => true
  | e :: rest =>
    let digits :=
      match rest with
      | '+' :: digits => digits
      | '-' :: digits => digits
      | digits => digits
    (e = 'e' || e = 'E') && !digits.isEmpty && digits.all Char.isDigit

def digitsValue (digits : List Char) : Nat :=
  digits.foldl (fun n c => n * 10 + (c.toNat - '0'.toNat)) 0

def number? (written : List Char) : Option Json :=
  let (negative, unsigned) :=
    match written with
    | '-' :: rest => (true, rest)
    | rest => (false, rest)
  let whole := unsigned.takeWhile Char.isDigit
  let rest := unsigned.dropWhile Char.isDigit
  let fraction := rest.takeWhile fun c => c ≠ 'e' && c ≠ 'E'
  let exponent := rest.dropWhile fun c => c ≠ 'e' && c ≠ 'E'
  let zeroLed := whole.head? = some '0' && whole.length ≠ 1
  if whole.isEmpty || zeroLed || !isFraction fraction || !isExponent exponent then none
  else if rest.isEmpty && !(negative && digitsValue whole = 0) then
    some (.int (if negative then -(digitsValue whole : Int) else digitsValue whole))
  else some (.decimal (String.ofList written))

def word? (written : List Char) : Option Json :=
  if written = "null".toList then some .null
  else if written = "true".toList then some (.bool true)
  else if written = "false".toList then some (.bool false)
  else number? written

/-- An array or object that is still open, with what it has so far backwards. -/
inductive Frame where
  | array (items : List Json)
  | object (fields : List (String × Json)) (key : String)

inductive BuildState where
  | value (stack : List Frame) (mayClose : Bool)
  | key (stack : List Frame) (fields : List (String × Json)) (mayClose : Bool)
  | colon (stack : List Frame) (fields : List (String × Json)) (key : String)
  | after (stack : List Frame) (value : Json)

def putField (fields : List (String × Json)) (key : String) (value : Json) :
    List (String × Json) :=
  (key, value) :: fields.filter (·.1 ≠ key)

def buildStep : BuildState → Token → Option BuildState
  | .value stack _, .mark .leftBracket => some (.value (.array [] :: stack) true)
  | .value stack _, .mark .leftBrace => some (.key stack [] true)
  | .value (.array _ :: stack) true, .mark .rightBracket => some (.after stack (.array []))
  | .value stack _, .string s => some (.after stack (.string s))
  | .value stack _, .word w => (word? w).map (.after stack)
  | .key stack fields _, .string s => some (.colon stack fields s)
  | .key stack _ true, .mark .rightBrace => some (.after stack (.object []))
  | .colon stack fields key, .mark .colon => some (.value (.object fields key :: stack) false)
  | .after (.array items :: stack) v, .mark .comma =>
    some (.value (.array (v :: items) :: stack) false)
  | .after (.array items :: stack) v, .mark .rightBracket =>
    some (.after stack (.array (v :: items).reverse))
  | .after (.object fields key :: stack) v, .mark .comma =>
    some (.key stack (putField fields key v) false)
  | .after (.object fields key :: stack) v, .mark .rightBrace =>
    some (.after stack (.object (putField fields key v).reverse))
  | _, _ => none

/-- The value that a text holds, if it is one JSON value with nothing but spaces around it. -/
def parse? (t : String) : Option Json := do
  let tokens ← tokens? t.toList
  match ← tokens.foldlM buildStep (.value [] false) with
  | .after [] v => some v
  | _ => none

end StructEdit.Json
