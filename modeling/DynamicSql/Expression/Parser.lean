import DynamicSql.Expression.Token

/-!
Reading an expression from its tokens. From the loosest to the tightest:

* `or` and `and` join to the left,
* `not` stands before a comparison or another `not`,
* a comparison has at most one operator between two concatenations,
* a concatenation is a chain of operands with `+` between them,
* an operand is a constant, a path, or an expression in parentheses.

Every reader gives the node and the tokens after it, which are fewer than there were before.
-/

namespace DynamicSql.Expression

structure ParseError where
  source : String
  fault : Fault

def ParseError.message (e : ParseError) : String :=
  "invalid expression `" ++ e.source ++ "`: " ++ e.fault.reason

abbrev Fewer (ts : List Token) := { rest : List Token // rest.length < ts.length }

abbrev NoMore (ts : List Token) := { rest : List Token // rest.length ≤ ts.length }

def parsePath (source : String) : Except Fault Node :=
  match Path.read source with
  | .ok p => .ok (.path p)
  | .error e => .error (.invalidPath e)

def startsComparison : List Token → Bool
  | .compare _ :: _ => true
  | _ => false

mutual

def parseOr (ts : List Token) : Except Fault (Node × Fewer ts) := do
  let (left, ⟨ts₁, h₁⟩) ← parseAnd ts
  let (node, ⟨ts₂, h₂⟩) ← parseOrTail left ts₁
  return (node, ⟨ts₂, Nat.lt_of_le_of_lt h₂ h₁⟩)
termination_by (ts.length, 5)

def parseOrTail (left : Node) (ts : List Token) : Except Fault (Node × NoMore ts) :=
  match ts with
  | .or :: r => do
    let (right, ⟨ts₁, h₁⟩) ← parseAnd r
    let (node, ⟨ts₂, h₂⟩) ← parseOrTail (.or left right) ts₁
    return (node, ⟨ts₂, Nat.le_succ_of_le (Nat.le_trans h₂ (Nat.le_of_lt h₁))⟩)
  | ts => .ok (left, ⟨ts, Nat.le_refl _⟩)
termination_by (ts.length, 0)

def parseAnd (ts : List Token) : Except Fault (Node × Fewer ts) := do
  let (left, ⟨ts₁, h₁⟩) ← parseNot ts
  let (node, ⟨ts₂, h₂⟩) ← parseAndTail left ts₁
  return (node, ⟨ts₂, Nat.lt_of_le_of_lt h₂ h₁⟩)
termination_by (ts.length, 4)

def parseAndTail (left : Node) (ts : List Token) : Except Fault (Node × NoMore ts) :=
  match ts with
  | .and :: r => do
    let (right, ⟨ts₁, h₁⟩) ← parseNot r
    let (node, ⟨ts₂, h₂⟩) ← parseAndTail (.and left right) ts₁
    return (node, ⟨ts₂, Nat.le_succ_of_le (Nat.le_trans h₂ (Nat.le_of_lt h₁))⟩)
  | ts => .ok (left, ⟨ts, Nat.le_refl _⟩)
termination_by (ts.length, 0)

def parseNot (ts : List Token) : Except Fault (Node × Fewer ts) :=
  match ts with
  | .not :: r => do
    let (inner, ⟨ts₁, h₁⟩) ← parseNot r
    return (.not inner, ⟨ts₁, Nat.lt_succ_of_lt h₁⟩)
  | ts => parseCompare ts
termination_by (ts.length, 3)

def parseCompare (ts : List Token) : Except Fault (Node × Fewer ts) := do
  let (left, ⟨ts₁, h₁⟩) ← parseConcat ts
  let (node, ⟨ts₂, h₂⟩) ← parseCompareTail left ts₁
  return (node, ⟨ts₂, Nat.lt_of_le_of_lt h₂ h₁⟩)
termination_by (ts.length, 2)

def parseCompareTail (left : Node) (ts : List Token) : Except Fault (Node × NoMore ts) :=
  match ts with
  | .compare op :: r => do
    let (right, ⟨ts₁, h₁⟩) ← parseConcat r
    if startsComparison ts₁ then .error .chainedComparison
    else return (.compare op left right, ⟨ts₁, Nat.le_succ_of_le (Nat.le_of_lt h₁)⟩)
  | ts => .ok (left, ⟨ts, Nat.le_refl _⟩)
termination_by (ts.length, 0)

def parseConcat (ts : List Token) : Except Fault (Node × Fewer ts) := do
  let (first, ⟨ts₁, h₁⟩) ← parseOperand ts
  let (more, ⟨ts₂, h₂⟩) ← parseConcatTail ts₁
  let node := if more.isEmpty then first else .concat (first :: more)
  return (node, ⟨ts₂, Nat.lt_of_le_of_lt h₂ h₁⟩)
termination_by (ts.length, 1)

def parseConcatTail (ts : List Token) : Except Fault (List Node × NoMore ts) :=
  match ts with
  | .plus :: r => do
    let (operand, ⟨ts₁, h₁⟩) ← parseOperand r
    let (more, ⟨ts₂, h₂⟩) ← parseConcatTail ts₁
    return (operand :: more, ⟨ts₂, Nat.le_succ_of_le (Nat.le_trans h₂ (Nat.le_of_lt h₁))⟩)
  | ts => .ok ([], ⟨ts, Nat.le_refl _⟩)
termination_by (ts.length, 0)

def parseOperand (ts : List Token) : Except Fault (Node × Fewer ts) :=
  match ts with
  | [] => .error .unexpectedEnd
  | .null :: r => .ok (.literal .null, ⟨r, Nat.lt_succ_self _⟩)
  | .true :: r => .ok (.literal (.bool true), ⟨r, Nat.lt_succ_self _⟩)
  | .false :: r => .ok (.literal (.bool false), ⟨r, Nat.lt_succ_self _⟩)
  | .number n :: r => .ok (.literal (.number n), ⟨r, Nat.lt_succ_self _⟩)
  | .text s :: r => .ok (.literal (.text s), ⟨r, Nat.lt_succ_self _⟩)
  | .path source :: r => do
    let node ← parsePath source
    return (node, ⟨r, Nat.lt_succ_self _⟩)
  | .openParen :: r => do
    match ← parseOr r with
    | (inner, ⟨.closeParen :: rest, h₁⟩) =>
      return (inner, ⟨rest, Nat.lt_trans (Nat.lt_succ_self _) (Nat.lt_succ_of_lt h₁)⟩)
    | _ => .error .missingParen
  | t :: _ => .error (.unexpectedToken t)
termination_by (ts.length, 0)

end

/-- An expression uses up all tokens. -/
def parseTokens (ts : List Token) : Except Fault Node := do
  let (node, ⟨rest, _⟩) ← parseOr ts
  match rest with
  | [] => return node
  | t :: _ => .error (.unexpectedToken t)

def read (source : String) : Except ParseError Expression :=
  match tokens false source.toList >>= parseTokens with
  | .ok root => .ok ⟨source, root⟩
  | .error fault => .error ⟨source, fault⟩

end DynamicSql.Expression
