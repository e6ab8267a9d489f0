import DynamicSql.Decimal.Literal
import DynamicSql.Text.Alphanumeric
import DynamicSql.Text.Blank

/-!
Property paths such as `a.b[0].c` and `m['key']`. A path is a name followed by steps: a point
and a name, or an index or quoted key in brackets, which may have a point of its own.
-/

namespace DynamicSql

inductive Segment where
  | key (name : String)
  | index (i : Nat)
  deriving DecidableEq, Repr

/-- A path keeps the text it was read from. -/
structure Path where
  source : String
  head : String
  rest : List Segment
  deriving DecidableEq, Repr

inductive PathFault where
  | empty
  | noName
  | unclosedBracket
  | invalidIndex
  | unexpectedPoint
  | expectedStep
  | unexpectedCharacter
  | endsWithPoint
  deriving DecidableEq, Repr

structure PathError where
  path : String
  fault : PathFault
  deriving DecidableEq, Repr

def PathFault.reason : PathFault → String
  | .empty => "empty path"
  | .noName => "path must start with a name"
  | .unclosedBracket => "unclosed `[`"
  | .invalidIndex => "invalid index"
  | .unexpectedPoint => "unexpected `.`"
  | .expectedStep => "expected `.` or `[`"
  | .unexpectedCharacter => "unexpected character"
  | .endsWithPoint => "path ends with `.`"

def PathError.message (e : PathError) : String :=
  "invalid property path `" ++ e.path ++ "`: " ++ e.fault.reason

namespace Path

def isNameChar (c : Char) : Bool :=
  Text.isAlphanumeric c || c == '_' || c == '$'

def segments (p : Path) : List Segment :=
  .key p.head :: p.rest

/-- A path of one name that is not checked against the grammar. -/
def single (name : String) : Path :=
  ⟨name, name, []⟩

/-- What stands in brackets: a quoted key, or an index below `2 ^ 64`. -/
def readBracket? (inner : List Char) : Option Segment :=
  match Text.trimChars inner with
  | '\'' :: k => if k.getLast? = some '\'' then some (.key (String.ofList k.dropLast)) else none
  | '"' :: k => if k.getLast? = some '"' then some (.key (String.ofList k.dropLast)) else none
  | cs => (Decimal.readBelow? UInt64.size cs).map .index

/-- Reads the steps up to the end. A name may stand only after a point, and a point not after
another. -/
def readSteps (afterPoint : Bool) (cs : List Char) : Except PathFault (List Segment) :=
  match cs with
  | [] => if afterPoint then .error .endsWithPoint else .ok []
  | '[' :: r =>
    match _ : r.dropWhile (· != ']') with
    | [] => .error .unclosedBracket
    | _ :: rest =>
      match readBracket? (r.takeWhile (· != ']')) with
      | none => .error .invalidIndex
      | some s => (readSteps false rest).map (s :: ·)
  | '.' :: r => if afterPoint then .error .unexpectedPoint else readSteps true r
  | c :: r =>
    if !afterPoint then .error .expectedStep
    else if !isNameChar c then .error .unexpectedCharacter
    else
      (readSteps false (r.dropWhile isNameChar)).map
        (.key (String.ofList (c :: r.takeWhile isNameChar)) :: ·)
termination_by cs.length
decreasing_by
  · have h := (List.dropWhile_sublist (· != ']') (l := r)).length_le
    simp_all; omega
  · simp
  · have h := (List.dropWhile_sublist isNameChar (l := r)).length_le
    simp; omega

def readSegments (cs : List Char) : Except PathFault (String × List Segment) :=
  match cs with
  | [] => .error .empty
  | '[' :: _ => .error .noName
  | '.' :: _ => .error .unexpectedPoint
  | c :: r =>
    if isNameChar c then
      (readSteps false (r.dropWhile isNameChar)).map
        (String.ofList (c :: r.takeWhile isNameChar), ·)
    else .error .unexpectedCharacter

/-- Blanks around a path do not belong to it. -/
def read (s : String) : Except PathError Path :=
  let cs := Text.trimChars s.toList
  match readSegments cs with
  | .ok (head, rest) => .ok ⟨String.ofList cs, head, rest⟩
  | .error fault => .error ⟨String.ofList cs, fault⟩

end Path

end DynamicSql
