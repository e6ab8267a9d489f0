import DynamicSql.Parameter.Path
import DynamicSql.Template.Fragment

/-!
The markers in a text: `#` and a path in braces stands for a bound value, `$` and a path in braces
for the plain text of a value. Inside quotes nothing is a marker, and there a backslash escapes the
character after it.
-/

namespace DynamicSql

inductive Mark where
  | bound
  | raw
  deriving DecidableEq, Repr

def Mark.opening : Mark → String
  | .bound => "#\x7b"
  | .raw => "$\x7b"

/-- A stretch of plain text, a marker with what stands in its braces, or a marker without a
closing brace. -/
inductive TextPart where
  | text (cs : List Char)
  | marker (mark : Mark) (content : List Char)
  | unclosed (mark : Mark)
  deriving DecidableEq, Repr

namespace TextPart

/-- Puts a character in front, into the text there if there is one. -/
def cons (c : Char) : List TextPart → List TextPart
  | .text cs :: ps => .text (c :: cs) :: ps
  | ps => .text [c] :: ps

def isQuote (c : Char) : Bool :=
  c == '\'' || c == '"' || c == '`'

/-- A quote ends where its own kind comes again; other kinds inside it do not count. -/
def afterQuote (quote : Option Char) (c : Char) : Option Char :=
  match quote with
  | none => some c
  | some q => if q = c then none else some q

/-- The kind of the marker that starts here outside of quotes, and what follows its opening
brace. -/
def mark? (quote : Option Char) (c : Char) (cs : List Char) : Option (Mark × List Char) :=
  match quote, c, cs with
  | none, '#', '{' :: body => some (.bound, body)
  | none, '$', '{' :: body => some (.raw, body)
  | _, _, _ => none

theorem mark?_length {quote : Option Char} {c : Char} {cs body : List Char} {m : Mark}
    (h : mark? quote c cs = some (m, body)) : body.length < cs.length := by
  unfold mark? at h
  split at h <;> simp at h
  all_goals rw [← h.2]; simp

def ofChars (quote : Option Char) (cs : List Char) : List TextPart :=
  match cs with
  | [] => []
  | c :: r =>
    if c = '\\' ∧ quote.isSome then
      match r with
      | [] => [.text [c]]
      | e :: r => cons c (cons e (ofChars quote r))
    else if isQuote c then cons c (ofChars (afterQuote quote c) r)
    else
      match _ : mark? quote c r with
      | none => cons c (ofChars quote r)
      | some (mark, body) =>
        match _ : body.dropWhile (· != '}') with
        | [] => [.unclosed mark]
        | _ :: rest => .marker mark (body.takeWhile (· != '}')) :: ofChars none rest
termination_by cs.length
decreasing_by
  · exact Nat.lt_succ_of_lt (Nat.lt_succ_self _)
  · exact Nat.lt_succ_self _
  · exact Nat.lt_succ_self _
  · have hm := mark?_length ‹mark? quote c r = some (mark, body)›
    have h := (List.dropWhile_sublist (· != '}') (l := body)).length_le
    have hd := congrArg List.length ‹body.dropWhile (· != '}') = _ :: rest›
    simp only [List.length_cons] at *
    omega

end TextPart

end DynamicSql
