import StructEdit.Text.Encoding

namespace StructEdit

def isBlank (c : Char) : Bool :=
  let n := c.toNat
  (0x09 ≤ n && n ≤ 0x0D) || n == 0x20 || n == 0x85 || n == 0xA0 || n == 0x1680
    || (0x2000 ≤ n && n ≤ 0x200A) || n == 0x2028 || n == 0x2029 || n == 0x202F || n == 0x205F
    || n == 0x3000

namespace Text

def trimStart (t : Text) : Text := t.dropWhile isBlank

def trimEnd (t : Text) : Text := (t.reverse.dropWhile isBlank).reverse

def trim (t : Text) : Text := trimEnd (trimStart t)

end Text

def trimName (name : String) : String := String.ofList (Text.trim name.toList)

/-- A name with its ASCII capitals made small; other letters stay as they are. -/
def lowerName (name : String) : String := String.ofList (name.toList.map Char.toLower)

/-- The form in which names are compared: no blanks around it and no ASCII capitals. -/
def nameKey (name : String) : String := lowerName (trimName name)

def isBlankName (name : String) : Bool := name.toList.all isBlank

end StructEdit
