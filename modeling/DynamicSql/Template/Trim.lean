import DynamicSql.Text.Blank

/-!
Trimming a rendered text: blanks go from both ends, then at most one of the given words from each
end, and what is left gets its decoration. Nothing is decorated if nothing is left.
-/

namespace DynamicSql

structure Trim where
  leading : Option String := none
  leadingOverrides : List String := []
  trailing : Option String := none
  trailingOverrides : List String := []
  deriving DecidableEq, Repr, Inhabited

namespace Trim

/-- The list of assignments of an update. -/
def setClause : Trim where
  leading := some "SET "
  trailingOverrides := [","]

/-- The conditions of a statement. -/
def whereClause : Trim where
  leading := some "WHERE "
  leadingOverrides := ["AND ", "OR ", "AND\n", "OR\n"]

/-- What follows the word at the start, if the word is there in any ASCII case. -/
def afterWord? (word cs : List Char) : Option (List Char) :=
  if word ≠ [] ∧ (cs.take word.length).map Char.toLower = word.map Char.toLower then
    some (cs.drop word.length)
  else none

/-- Drops the first of the words that stands at the start. -/
def dropWord (words : List (List Char)) (cs : List Char) : List Char :=
  (words.findSome? (afterWord? · cs)).getD cs

def dropEndWord (words : List (List Char)) (cs : List Char) : List Char :=
  (dropWord (words.map List.reverse) cs.reverse).reverse

/-- What is left of a text between the blanks and words that are cut off. -/
def core (t : Trim) (cs : List Char) : List Char :=
  dropEndWord (t.trailingOverrides.map String.toList)
    (Text.dropEndBlanks
      (dropWord (t.leadingOverrides.map String.toList) (Text.dropBlanks cs)))

def apply (t : Trim) (body : String) : String :=
  match t.core body.toList with
  | [] => ""
  | cs => t.leading.getD "" ++ String.ofList cs ++ t.trailing.getD ""

end Trim

end DynamicSql
