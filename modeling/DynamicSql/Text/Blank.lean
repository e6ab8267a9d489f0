/-!
Blank characters (the Unicode property White_Space) and the three ways to cut them off a text.
A text is blank when nothing is left of it.
-/

namespace DynamicSql.Text

def isBlankChar (c : Char) : Bool :=
  let n := c.toNat
  (9 ≤ n && n ≤ 13) || n == 0x20 || n == 0x85 || n == 0xA0 || n == 0x1680 ||
    (0x2000 ≤ n && n ≤ 0x200A) || n == 0x2028 || n == 0x2029 || n == 0x202F ||
    n == 0x205F || n == 0x3000

def dropBlanks (cs : List Char) : List Char :=
  cs.dropWhile isBlankChar

def dropEndBlanks (cs : List Char) : List Char :=
  (dropBlanks cs.reverse).reverse

def trimChars (cs : List Char) : List Char :=
  dropEndBlanks (dropBlanks cs)

def trimStart (s : String) : String :=
  String.ofList (dropBlanks s.toList)

def trim (s : String) : String :=
  String.ofList (trimChars s.toList)

def isBlank (s : String) : Bool :=
  s.toList.all isBlankChar

end DynamicSql.Text
