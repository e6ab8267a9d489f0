import DynamicSql.Expression.Parser
import DynamicSql.Parameter.Context

/-!
What an expression means under a context. As a test it is true or false; as an operand of a
comparison or concatenation it is a value, and there a path that leads nowhere is null.
-/

namespace DynamicSql

inductive EvalError where
  | parse (e : Expression.ParseError)
  | typeMismatch (op : Comparison) (left right : Kind)
  | notConcatenable (found : Kind)
  | resolve (e : ResolveError)

def EvalError.message : EvalError → String
  | .parse e => e.message
  | .typeMismatch op left right =>
    "cannot apply `" ++ op.text ++ "` to " ++ left.name ++ " and " ++ right.name
  | .notConcatenable found => "cannot concatenate a " ++ found.name ++ " value"
  | .resolve e => e.message

/-- A number and a text are equal if the text spells the number. -/
def Value.equals : Value → Value → Bool
  | .null, .null => true
  | .null, _ => false
  | _, .null => false
  | .number a, .number b => a.equals b
  | .number a, .text s => (Number.ofText? s).any a.equals
  | .text s, .number a => (Number.ofText? s).any a.equals
  | a, b => a.same b

/-- Whether an order relation admits the outcome of a comparison. -/
def Comparison.admits : Comparison → Ordering → Bool
  | .lt, o => o == .lt
  | .le, o => o != .gt
  | .gt, o => o == .gt
  | .ge, o => o != .lt
  | .eq, o => o == .eq
  | .ne, o => o != .eq

/-- Order needs a number on both sides. A NaN is in no order with anything. -/
def Comparison.order (op : Comparison) (a b : Value) : Except EvalError Bool :=
  match a.number?, b.number? with
  | some m, some n => .ok ((m.compare? n).any op.admits)
  | _, _ => .error (.typeMismatch op a.kind b.kind)

def Comparison.apply (op : Comparison) (a b : Value) : Except EvalError Bool :=
  match op with
  | .eq => .ok (a.equals b)
  | .ne => .ok (!a.equals b)
  | op => op.order a b

namespace Context

def resolveStrict (c : Context) (p : Path) : Except EvalError Value :=
  match c.resolve p with
  | .ok v => .ok v
  | .error e => .error (.resolve e)

def resolveOrNull (c : Context) (p : Path) : Except EvalError Value :=
  match c.resolve p with
  | .ok v => .ok v
  | .error (.notFound _) => .ok .null
  | .error e => .error (.resolve e)

end Context

namespace Node

/-- The right side counts only where the left side holds. -/
def conjunction (left right : Except EvalError Bool) : Except EvalError Bool := do
  if ← left then right else return false

/-- The right side counts only where the left side fails to hold. -/
def disjunction (left right : Except EvalError Bool) : Except EvalError Bool := do
  if ← left then return true else right

def comparison (op : Comparison) (left right : Except EvalError Value) :
    Except EvalError Bool := do
  op.apply (← left) (← right)

def pieceText (v : Value) : Except EvalError String :=
  match v.rawText? with
  | some s => .ok s
  | none => .error (.notConcatenable v.kind)

mutual

def test (c : Context) : Node → Except EvalError Bool
  | .literal v => .ok v.isTruthy
  | .path p => (c.resolveStrict p).map Value.isTruthy
  | .not e => (e.test c).map (!·)
  | .and l r => conjunction (l.test c) (r.test c)
  | .or l r => disjunction (l.test c) (r.test c)
  | .compare op l r => comparison op (l.operand c) (r.operand c)
  | .concat parts => (joined c parts).map fun s => !s.isEmpty

def operand (c : Context) : Node → Except EvalError Value
  | .literal v => .ok v
  | .path p => c.resolveOrNull p
  | .not e => (e.test c).map fun b => .bool !b
  | .and l r => (conjunction (l.test c) (r.test c)).map .bool
  | .or l r => (disjunction (l.test c) (r.test c)).map .bool
  | .compare op l r => (comparison op (l.operand c) (r.operand c)).map .bool
  | .concat parts => (joined c parts).map .text

/-- The texts of all parts, one after the other. -/
def joined (c : Context) : List Node → Except EvalError String
  | [] => .ok ""
  | e :: es => do
    let s ← pieceText (← e.operand c)
    return s ++ (← joined c es)

end

/-- The value of a whole expression: unlike an operand, a path that leads nowhere is an error. -/
def value (c : Context) : Node → Except EvalError Value
  | .literal v => .ok v
  | .path p => c.resolveStrict p
  | .concat parts => (joined c parts).map .text
  | e => (e.test c).map .bool

end Node

namespace Expression

def test (e : Expression) (c : Context) : Except EvalError Bool :=
  e.root.test c

def value (e : Expression) (c : Context) : Except EvalError Value :=
  e.root.value c

/-- Reads and tests an expression at once. -/
def evaluate (source : String) (c : Context) : Except EvalError Bool :=
  match read source with
  | .ok e => e.test c
  | .error e => .error (.parse e)

end Expression

end DynamicSql
