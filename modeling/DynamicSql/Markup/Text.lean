import DynamicSql.Decimal.Literal
import DynamicSql.Markup.Name

/-!
What the characters between the tags and in attribute values stand for: references are resolved,
and line ends that were written as such become line feeds, or blanks in an attribute.
-/

namespace DynamicSql.Markup

/-- A character that was written as itself, or by a reference. -/
inductive Written where
  | plain (c : Char)
  | reference (c : Char)
  deriving DecidableEq, Repr

def hexValue? (ds : List Char) : Option Nat :=
  let value? (c : Char) : Option Nat :=
    if c.isDigit then some (c.toNat - '0'.toNat)
    else if 'a' ≤ c ∧ c ≤ 'f' then some (c.toNat - 'a'.toNat + 10)
    else if 'A' ≤ c ∧ c ≤ 'F' then some (c.toNat - 'A'.toNat + 10)
    else none
  if ds = [] then none else ds.foldlM (fun n c => (value? c).map (16 * n + ·)) 0

/-- A code point below `2 ^ 32` that no character has stands for U+FFFD. -/
def ofCodePoint? (n : Nat) : Option Char :=
  if UInt32.size ≤ n then none
  else
    let c := if n.isValidChar then Char.ofNat n else '\uFFFD'
    if isXmlChar c then some c else none

/-- What a reference with the given name stands for. -/
def ofReferenceName? (name : List Char) : Option Char :=
  match name with
  | ['q', 'u', 'o', 't'] => some '"'
  | ['a', 'm', 'p'] => some '&'
  | ['a', 'p', 'o', 's'] => some '\''
  | ['l', 't'] => some '<'
  | ['g', 't'] => some '>'
  | '#' :: 'x' :: ds => (hexValue? ds).bind ofCodePoint?
  | '#' :: ds => (Decimal.readNat? ds).bind ofCodePoint?
  | _ => none

/-- An ampersand starts a reference, which ends at the next semicolon. -/
def written? (cs : List Char) : Option (List Written) :=
  match cs with
  | [] => some []
  | '&' :: r =>
    match _ : r.dropWhile (· != ';') with
    | [] => none
    | _ :: rest => do
      let c ← ofReferenceName? (r.takeWhile (· != ';'))
      return .reference c :: (← written? rest)
  | c :: r => (written? r).map (.plain c :: ·)
termination_by cs.length
decreasing_by
  · have h := (List.dropWhile_sublist (· != ';') (l := r)).length_le
    simp_all; omega
  · simp

/-- A carriage return becomes a line feed together with the line feed after it, if there is one.
It stays where a reference follows, and at the end of the text right after a reference. -/
def textValue (afterReference : Bool) (ws : List Written) : List Char :=
  match ws with
  | [] => []
  | .reference c :: r => c :: textValue true r
  | .plain '\r' :: [] => if afterReference then ['\r'] else ['\n']
  | .plain '\r' :: .reference c :: r => '\r' :: c :: textValue true r
  | .plain '\r' :: .plain '\n' :: r => '\n' :: textValue false r
  | .plain '\r' :: .plain c :: r => '\n' :: textValue false (.plain c :: r)
  | .plain c :: r => c :: textValue false r
termination_by ws.length

/-- Tabs and line ends become one blank each, unless a reference stands for them. -/
def attributeValue : List Written → List Char
  | [] => []
  | .reference c :: ws => c :: attributeValue ws
  | .plain '\r' :: .plain '\n' :: ws => ' ' :: attributeValue ws
  | .plain c :: ws =>
    (if c == '\t' || c == '\n' || c == '\r' then ' ' else c) :: attributeValue ws

end DynamicSql.Markup
