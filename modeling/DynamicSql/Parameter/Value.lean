import DynamicSql.Parameter.Entries
import DynamicSql.Parameter.Number

/-!
Parameter values: scalars, lists, and maps that keep the order of their entries.
-/

namespace DynamicSql

inductive Value where
  | null
  | bool (b : Bool)
  | number (n : Number)
  | text (s : String)
  | list (items : List Value)
  | map (entries : List (String × Value))
  deriving Inhabited

/-- The kinds of values, as messages name them. -/
inductive Kind where
  | null
  | bool
  | number
  | text
  | list
  | map
  deriving DecidableEq, Repr

def Kind.name : Kind → String
  | .null => "null"
  | .bool => "bool"
  | .number => "number"
  | .text => "text"
  | .list => "list"
  | .map => "map"

namespace Value

def emptyMap : Value := .map []

def kind : Value → Kind
  | .null => .null
  | .bool _ => .bool
  | .number _ => .number
  | .text _ => .text
  | .list _ => .list
  | .map _ => .map

def isNull : Value → Bool
  | .null => true
  | _ => false

def isScalar : Value → Bool
  | .list _ | .map _ => false
  | _ => true

/-- Every number is true, also zero. -/
def isTruthy : Value → Bool
  | .null => false
  | .bool b => b
  | .number _ => true
  | .text s => !s.isEmpty
  | .list items => !items.isEmpty
  | .map entries => !entries.isEmpty

/-- A number, or the number that a text spells. -/
def number? : Value → Option Number
  | .number n => some n
  | .text s => Number.ofText? s
  | _ => none

def text? : Value → Option String
  | .text s => some s
  | _ => none

/-- The text that a scalar contributes where it is written without quotes. -/
def rawText? : Value → Option String
  | .null => some ""
  | .bool b => some (if b then "true" else "false")
  | .number n => some n.text
  | .text s => some s
  | .list _ | .map _ => none

mutual

/-- Equality of structure: kinds of numbers differ, and the order of a map's entries does not
count. -/
def same : Value → Value → Bool
  | .null, .null => true
  | .bool a, .bool b => a == b
  | .number a, .number b => a.same b
  | .text a, .text b => a == b
  | .list xs, .list ys => sameList xs ys
  | .map es, .map fs => es.length == fs.length && sameEntries es fs
  | _, _ => false

def sameList : List Value → List Value → Bool
  | [], [] => true
  | x :: xs, y :: ys => x.same y && sameList xs ys
  | _, _ => false

def sameEntries : List (String × Value) → List (String × Value) → Bool
  | [], _ => true
  | (k, v) :: es, fs =>
    (match Entries.get? fs k with
      | some w => v.same w
      | none => false) && sameEntries es fs

end

end Value

end DynamicSql
