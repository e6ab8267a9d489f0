import DynamicSql.Parameter.Path
import DynamicSql.Parameter.Value

/-!
Test expressions: comparisons of operands under `not`, `and` and `or`. An operand is a literal, a
path, or several operands joined as text.
-/

namespace DynamicSql

inductive Comparison where
  | eq
  | ne
  | lt
  | le
  | gt
  | ge
  deriving DecidableEq, Repr

def Comparison.text : Comparison → String
  | .eq => "=="
  | .ne => "!="
  | .lt => "<"
  | .le => "<="
  | .gt => ">"
  | .ge => ">="

inductive Node where
  | literal (v : Value)
  | path (p : Path)
  | not (inner : Node)
  | and (left right : Node)
  | or (left right : Node)
  | compare (op : Comparison) (left right : Node)
  | concat (parts : List Node)
  deriving Inhabited

/-- An expression keeps the text it was read from. -/
structure Expression where
  source : String
  root : Node
  deriving Inhabited

end DynamicSql
