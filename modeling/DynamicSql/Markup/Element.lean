import DynamicSql.Markup.Token
import DynamicSql.Parameter.Entries

/-!
The elements of an XML document. An element knows the line on which it starts and the source of
its content. Names are local: prefixes have to be declared, and then they are dropped.
-/

namespace DynamicSql.Markup

structure Tag where
  name : String
  attributes : Entries String := []
  line : Nat := 0
  inner : String := ""
  deriving DecidableEq, Repr

inductive Content where
  | text (s : String)
  | element (tag : Tag) (children : List Content)

structure Element where
  tag : Tag
  children : List Content

inductive XmlError where
  | malformed
  deriving DecidableEq, Repr

def XmlError.message : XmlError → String
  | .malformed => "malformed XML"

/-! Namespaces -/

/-- Prefixes and the names they are bound to, the nearest binding first. -/
abbrev Bindings := List (List Char × String)

def xmlSpace : List Char := ['x', 'm', 'l']

def xmlnsSpace : List Char := ['x', 'm', 'l', 'n', 's']

def xmlUri : String := "http://www.w3.org/XML/1998/namespace"

def xmlnsUri : String := "http://www.w3.org/2000/xmlns/"

/-- Whether an attribute declares a prefix or the default namespace. -/
def Attribute.isDeclaration (a : Attribute) : Bool :=
  a.name.space == xmlnsSpace || a.name.localName == xmlnsSpace

/-- The two names of the standard are bound to their own prefixes only. -/
def Attribute.isLegal (a : Attribute) : Bool :=
  a.value != xmlnsUri &&
    ((a.name.space == xmlnsSpace && a.name.localName == xmlSpace) == (a.value == xmlUri))

/-- The prefixes that the attributes of one tag declare, each of them once. -/
def declared? : List Attribute → Option Bindings
  | [] => some []
  | a :: as => do
    let bindings ← declared? as
    if !a.isDeclaration then return bindings
    else if !a.isLegal then none
    else if a.name.space != xmlnsSpace || a.name.localName == xmlSpace then return bindings
    else if bindings.any (·.1 == a.name.localName) then none
    else return (a.name.localName, a.value) :: bindings

def uri? (bindings : Bindings) (space : List Char) : Option String :=
  bindings.lookup space

/-- The namespace of an attribute: none without a prefix, and the prefix `xml` needs no
declaration. -/
def Attribute.namespace? (bindings : Bindings) (a : Attribute) : Option (Option String) :=
  if a.name.space = [] then some none
  else if a.name.space = xmlSpace then some (some xmlUri)
  else (uri? bindings a.name.space).map some

/-- The attributes that are no declarations, by local name. No two of them have the same local
name in the same namespace; of two in different namespaces the later one stays. -/
def attributes? (bindings : Bindings) (as : List Attribute) : Option (Entries String) := do
  let own := as.filter fun a => !a.isDeclaration
  let keys ← own.mapM fun a => (a.namespace? bindings).map fun uri => (uri, a.name.localName)
  if keys.Nodup then
    return Entries.ofList (own.map fun a => (a.name.localText, a.value))
  else none

/-- The bindings inside a tag and its attributes, if the tag is well formed under the bindings
outside. -/
def openTag? (outside : Bindings) (name : Name) (as : List Attribute) :
    Option (Bindings × Entries String) := do
  if name.space = xmlnsSpace then none
  else
    let bindings := (← declared? as) ++ outside
    let attributes ← attributes? bindings as
    if name.space = [] ∨ (uri? bindings name.space).isSome then return (bindings, attributes)
    else none

/-! Content -/

/-- One part of an element's content with its source: a run of characters, a child element, or
something that is dropped. -/
structure Piece where
  source : List Char
  content : Option Content
  isText : Bool

/-- Leaves out what follows the first of the text pieces at the end. -/
def dropTextTail : List Piece → List Piece
  | [] => []
  | p :: ps => if p.isText && ps.all Piece.isText then [p] else p :: dropTextTail ps

/-- The source from the start of the first part to the end of the last one, where text that
follows directly on text does not count. -/
def innerSource (ps : List Piece) : String :=
  String.ofList ((dropTextTail ps).flatMap Piece.source)

/-- Texts without an element between them are one text, and an empty text is none. -/
def joinTexts : List Content → List Content
  | [] => []
  | .element tag children :: cs => .element tag children :: joinTexts cs
  | .text s :: cs =>
    match joinTexts cs with
    | .text t :: rest => .text (s ++ t) :: rest
    | rest => if s.isEmpty then rest else .text s :: rest

def contents (ps : List Piece) : List Content :=
  joinTexts (ps.filterMap Piece.content)

def textPiece (source : List Char) (value : String) : Piece :=
  ⟨source, some (.text value), true⟩

def elementPiece (start : Lexeme) (name : Name) (attributes : Entries String)
    (inner : List Piece) (finish : List Char) : Piece where
  source := start.source ++ inner.flatMap Piece.source ++ finish
  content := some (.element ⟨name.localText, attributes, start.line, innerSource inner⟩
    (contents inner))
  isText := false

abbrev NoMore (ls : List Lexeme) := { rest : List Lexeme // rest.length ≤ ls.length }

/-- Reads parts up to an end tag that belongs to none of them, or to the end. -/
def readPieces? (bindings : Bindings) (ls : List Lexeme) :
    Option (List Piece × NoMore ls) :=
  match ls with
  | [] => some ([], ⟨[], Nat.le_refl _⟩)
  | l :: r =>
    match l.token with
    | .endTag _ => some ([], ⟨l :: r, Nat.le_refl _⟩)
    | .text value | .cdata value => do
      let (ps, ⟨rest, h⟩) ← readPieces? bindings r
      return (textPiece l.source value :: ps, ⟨rest, Nat.le_succ_of_le h⟩)
    | .comment | .instruction => do
      let (ps, ⟨rest, h⟩) ← readPieces? bindings r
      return (⟨l.source, none, false⟩ :: ps, ⟨rest, Nat.le_succ_of_le h⟩)
    | .startTag name as true => do
      let (_, attributes) ← openTag? bindings name as
      let (ps, ⟨rest, h⟩) ← readPieces? bindings r
      return (elementPiece l name attributes [] [] :: ps, ⟨rest, Nat.le_succ_of_le h⟩)
    | .startTag name as false => do
      let (inside, attributes) ← openTag? bindings name as
      match ← readPieces? inside r with
      | (_, ⟨[], _⟩) => none
      | (inner, ⟨e :: after, h₁⟩) =>
        if e.token = .endTag name then
          let (ps, ⟨rest, h₂⟩) ← readPieces? bindings after
          return (elementPiece l name attributes inner e.source :: ps,
            ⟨rest, Nat.le_succ_of_le (Nat.le_trans h₂ (Nat.le_of_succ_le h₁))⟩)
        else none
termination_by ls.length
decreasing_by all_goals (simp only [List.length_cons] at *; omega)

/-! Documents -/

/-- The declaration at the start of a document: the version first, then optionally the encoding
and whether the document stands alone. -/
def readDeclaration? (cs : List Char) : Option (List Char) := do
  let spaced? (cs : List Char) : Option (List Char) :=
    if cs.head?.any isSpace || ['?', '>'].isPrefixOf cs then some (cs.dropWhile isSpace) else none
  let pair? (word : List Char) (cs : List Char) : Option (List Char) :=
    if word.isPrefixOf cs then (readPair? cs).map Prod.snd else none
  let cs ← pair? ['v', 'e', 'r', 's', 'i', 'o', 'n'] (cs.dropWhile isSpace)
  let cs ← spaced? cs
  let cs ← match pair? ['e', 'n', 'c', 'o', 'd', 'i', 'n', 'g'] cs with
    | some rest => spaced? rest
    | none => some cs
  let cs := (pair? ['s', 't', 'a', 'n', 'd', 'a', 'l', 'o', 'n', 'e'] cs).getD cs
  match cs.dropWhile isSpace with
  | '?' :: '>' :: rest => return rest
  | _ => none

/-- A byte order mark is skipped. -/
def readStart? (cs : List Char) : Option (List Char) :=
  let cs := match cs with
    | '\uFEFF' :: r => r
    | _ => cs
  match cs with
  | '<' :: '?' :: 'x' :: 'm' :: 'l' :: ' ' :: r => readDeclaration? r
  | _ => some cs

/-- Outside of the root element only white space may be text. -/
def isOutside (p : Piece) : Bool :=
  p.content.isNone || (p.isText && p.source.all isSpace)

def rootOf? (ps : List Piece) : Option Element :=
  match ps.dropWhile isOutside with
  | ⟨_, some (.element tag children), _⟩ :: rest =>
    if rest.all isOutside then some ⟨tag, children⟩ else none
  | _ => none

def readElement? (cs : List Char) : Option Element := do
  let body ← readStart? cs
  let line := 1 + (cs.take (cs.length - body.length)).count '\n'
  match ← readPieces? [] (← lexemes? line body) with
  | (ps, ⟨[], _⟩) => rootOf? ps
  | _ => none

/-- The root element of a document. -/
def read (source : String) : Except XmlError Element :=
  match readElement? source.toList with
  | some e => .ok e
  | none => .error .malformed

end DynamicSql.Markup
