import DynamicSql.Parameter.Value
import DynamicSql.Sql.Flavor

/-!
Scalars as SQL literals. A string stands between single quotes, and a quote inside it is either
doubled or escaped by a backslash.
-/

namespace DynamicSql

inductive EscapeStyle where
  | doubled
  | backslash
  deriving DecidableEq, Repr, Inhabited

structure Options where
  flavor : Flavor
  escape : EscapeStyle := .doubled
  deriving DecidableEq, Repr

/-- The options that are used where none are given. -/
def defaultOptions : WithDefault Options :=
  return ⟨← get, .doubled⟩

inductive LiteralError where
  | nonScalar (found : Kind)
  | nonFinite (shown : String)
  deriving DecidableEq, Repr

def LiteralError.message : LiteralError → String
  | .nonScalar found => "a " ++ found.name ++ " value cannot be rendered as a scalar SQL literal"
  | .nonFinite shown => "non-finite number `" ++ shown ++ "` cannot be rendered as a SQL literal"

/-- A quote is written twice, and so is a backslash where the flavor would take it for the start
of an escape. -/
def doubledChar (f : Flavor) (c : Char) : List Char :=
  if c = '\'' then ['\'', '\'']
  else if c = '\\' ∧ f.backslashEscapes then ['\\', '\\']
  else [c]

/-- In CQL a quote is doubled in this style too. -/
def backslashChar (f : Flavor) (c : Char) : List Char :=
  if c = '\x00' then ['\\', '0']
  else if c = '\x08' then ['\\', 'b']
  else if c = '\n' then ['\\', 'n']
  else if c = '\r' then ['\\', 'r']
  else if c = '\t' then ['\\', 't']
  else if c = '\x1a' then ['\\', 'Z']
  else if c = '\'' then if f = .cql then ['\'', '\''] else ['\\', '\'']
  else if c = '"' then ['\\', '"']
  else if c = '\\' then ['\\', '\\']
  else [c]

namespace Options

def escapeChar (o : Options) : Char → List Char :=
  match o.escape with
  | .doubled => doubledChar o.flavor
  | .backslash => backslashChar o.flavor

def quote (o : Options) (s : String) : String :=
  o.flavor.stringMark (o.escape == .backslash) ++
    String.ofList ('\'' :: s.toList.flatMap o.escapeChar ++ ['\''])

def literal (o : Options) : Value → Except LiteralError String
  | .null => .ok "NULL"
  | .bool b => .ok (o.flavor.truth b)
  | .number n => if n.isFinite then .ok n.text else .error (.nonFinite n.text)
  | .text s => .ok (o.quote s)
  | .list _ => .error (.nonScalar .list)
  | .map _ => .error (.nonScalar .map)

end Options

/-- The text of a scalar as it is, without quotes and escapes. -/
def Value.raw (v : Value) : Except LiteralError String :=
  match v.rawText? with
  | some s => .ok s
  | none => .error (.nonScalar v.kind)

end DynamicSql
