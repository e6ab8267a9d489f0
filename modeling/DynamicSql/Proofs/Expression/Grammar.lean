import DynamicSql.Expression.Parser

/-!
The grammar of test expressions, as the tokens that every level of it can have and the node that
they stand for. Nothing here says how tokens are read: a repeated part is any number of phrases with
the joining token in front of each.
-/

namespace DynamicSql.Expression

/-- From the loosest to the tightest. -/
inductive Level where
  | or
  | and
  | not
  | compare
  | concat
  | operand
  deriving DecidableEq, Repr

/-- Tokens, and the node that they stand for. -/
abbrev Phrase := List Token × Node

/-- The phrases one after the other, each behind a joining token. -/
def joinedBy (joint : Token) (ps : List Phrase) : List Token :=
  ps.flatMap fun p => joint :: p.1

/-- What a token says that is an operand of its own, paths apart. -/
def Token.constant? : Token → Option Value
  | .null => some .null
  | .true => some (.bool Bool.true)
  | .false => some (.bool Bool.false)
  | .number n => some (.number n)
  | .text s => some (.text s)
  | _ => none

/-- One operand stands for itself; more of them are the parts of one concatenation. -/
def concatenation (first : Node) (more : List Node) : Node :=
  if more.isEmpty then first else .concat (first :: more)

/-- The tokens `ts` are a phrase of the level, and `n` is what they stand for. -/
inductive Derives : Level → List Token → Node → Prop where
  | or {ts : List Token} {n : Node} {ps : List Phrase} (hfirst : Derives .and ts n)
      (hmore : ∀ p ∈ ps, Derives .and p.1 p.2) :
      Derives .or (ts ++ joinedBy .or ps) ((ps.map Prod.snd).foldl .or n)
  | and {ts : List Token} {n : Node} {ps : List Phrase} (hfirst : Derives .not ts n)
      (hmore : ∀ p ∈ ps, Derives .not p.1 p.2) :
      Derives .and (ts ++ joinedBy .and ps) ((ps.map Prod.snd).foldl .and n)
  | not {ts : List Token} {n : Node} (h : Derives .not ts n) :
      Derives .not (.not :: ts) (.not n)
  | affirmed {ts : List Token} {n : Node} (h : Derives .compare ts n) : Derives .not ts n
  | compare {ts us : List Token} {l r : Node} (op : Comparison) (hl : Derives .concat ts l)
      (hr : Derives .concat us r) :
      Derives .compare (ts ++ .compare op :: us) (.compare op l r)
  | uncompared {ts : List Token} {n : Node} (h : Derives .concat ts n) : Derives .compare ts n
  | concat {ts : List Token} {n : Node} {ps : List Phrase} (hfirst : Derives .operand ts n)
      (hmore : ∀ p ∈ ps, Derives .operand p.1 p.2) :
      Derives .concat (ts ++ joinedBy .plus ps) (concatenation n (ps.map Prod.snd))
  | constant {t : Token} {v : Value} (h : t.constant? = some v) :
      Derives .operand [t] (.literal v)
  | path {source : String} {p : Path} (h : Path.read source = .ok p) :
      Derives .operand [.path source] (.path p)
  | parens {ts : List Token} {n : Node} (h : Derives .or ts n) :
      Derives .operand (.openParen :: ts ++ [.closeParen]) n

end DynamicSql.Expression
