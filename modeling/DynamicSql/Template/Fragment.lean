import DynamicSql.Expression.Basic
import DynamicSql.Template.Trim

/-!
Fragment trees: the parts of a template and how they are nested.
-/

namespace DynamicSql

/-- The names of a loop, and what is written around and between its entries. -/
structure Loop where
  collection : Path
  item : String
  index : Option String := none
  before : Option String := none
  after : Option String := none
  separator : Option String := none

inductive Fragment where
  | text (s : String)
  | placeholder (p : Path)
  | raw (p : Path)
  | conditional (test : Expression) (body : Fragment)
  | choose (branches : List (Expression × Fragment)) (otherwise : Option Fragment)
  | loop (spec : Loop) (body : Fragment)
  | trim (spec : Trim) (body : Fragment)
  | bind (name : String) (value : Expression)
  | seq (items : List Fragment)
  deriving Inhabited

namespace Fragment

def empty : Fragment := .seq []

mutual

/-- Whether there is nothing but text in the tree. -/
def isStatic : Fragment → Bool
  | .text _ => true
  | .seq items => areStatic items
  | _ => false

def areStatic : List Fragment → Bool
  | [] => true
  | f :: fs => f.isStatic && areStatic fs

end

end Fragment

end DynamicSql
