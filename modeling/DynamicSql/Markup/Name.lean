/-!
The characters of XML documents and names. A qualified name is a local name, or a prefix and a
local name with a colon between them; the prefix may be empty.
-/

namespace DynamicSql.Markup

def isSpace (c : Char) : Bool :=
  c == ' ' || c == '\t' || c == '\n' || c == '\r'

def isXmlChar (c : Char) : Bool :=
  if c.toNat < 0x20 then c == '\t' || c == '\n' || c == '\r'
  else c.toNat != 0xFFFE && c.toNat != 0xFFFF

/-- The closed ranges of code points from 128 on that may start a name. -/
def nameStartRanges : List (Nat × Nat) :=
  [ (0xC0, 0xD6), (0xD8, 0xF6), (0xF8, 0x2FF), (0x370, 0x37D), (0x37F, 0x1FFF), (0x200C, 0x200D),
    (0x2070, 0x218F), (0x2C00, 0x2FEF), (0x3001, 0xD7FF), (0xF900, 0xFDCF), (0xFDF0, 0xFFFD),
    (0x10000, 0xEFFFF) ]

/-- The closed ranges from 128 on that may stand in a name but not start it. -/
def nameExtraRanges : List (Nat × Nat) :=
  [ (0xB7, 0xB7), (0x300, 0x36F), (0x203F, 0x2040) ]

def inRanges (ranges : List (Nat × Nat)) (c : Char) : Bool :=
  ranges.any fun r => r.1 ≤ c.toNat && c.toNat ≤ r.2

def isNameStart (c : Char) : Bool :=
  c.isAlpha || c == '_' || inRanges nameStartRanges c

def isNameChar (c : Char) : Bool :=
  c.isAlphanum || c == '_' || c == '-' || c == '.' ||
    inRanges nameStartRanges c || inRanges nameExtraRanges c

structure Name where
  space : List Char
  localName : List Char
  deriving DecidableEq, Repr

def Name.localText (n : Name) : String := String.ofList n.localName

/-- Splits a run of name characters and colons; two colons make no name. -/
def Name.ofRun? (run : List Char) : Option Name :=
  let isPart (cs : List Char) : Bool := (cs.head?.any isNameStart) && cs.all isNameChar
  match run.dropWhile (· != ':') with
  | [] => if isPart run then some ⟨[], run⟩ else none
  | _ :: localName =>
    let space := run.takeWhile (· != ':')
    if (space = [] ∨ isPart space) ∧ isPart localName then some ⟨space, localName⟩ else none

def isRunChar (c : Char) : Bool :=
  isNameChar c || c == ':'

def readName? (cs : List Char) : Option (Name × List Char) :=
  (Name.ofRun? (cs.takeWhile isRunChar)).map fun n => (n, cs.dropWhile isRunChar)

/-- What follows a name that is not split at colons. -/
def skipName? : List Char → Option (List Char)
  | [] => none
  | c :: cs => if isNameStart c || c == ':' then some (cs.dropWhile isRunChar) else none

end DynamicSql.Markup
